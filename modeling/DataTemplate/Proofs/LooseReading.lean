/-
What a loose reading changes.  A string, an array or an object is read as ever, and so is any other
value that stands alone; whatever else a text holds, the loose reading takes it as a string and
reports nothing.  Main statement: `readDocument_loose`.
-/
import DataTemplate.Proofs.Consistency
import DataTemplate.Proofs.Policies
import DataTemplate.Proofs.Tiling

namespace DataTemplate

variable {σ : Type}

/-- Strings, arrays and objects: values that text behind them does not turn into a string. -/
def firmKinds : List NodeKind := [.string, .array, .object]

/-- Expressions, keywords and numbers. -/
def looseKinds : List NodeKind := [.expression, .number, .boolean, .nullish]

/-- Whether nothing but white space stands from a position on. -/
def OnlyBlanksFrom (source : List Char) (position : Nat) : Prop :=
  ∀ x ∈ textFrom source position, isBlank x = true

theorem mayBeLoose_eq_false {value : Value} (h : value.kind ∈ firmKinds) :
    mayBeLoose (some value) = false := by
  cases value with
  | text | array | object => rfl
  | expression e => simp [Value.kind, firmKinds] at h
  | scalar s =>
    cases hmeaning : s.meaning <;> simp [Value.kind, Meaning.kind, firmKinds, hmeaning] at h

theorem mayBeLoose_eq_true {value : Value} (h : value.kind ∈ looseKinds) :
    mayBeLoose (some value) = true := by
  cases value with
  | expression | scalar => rfl
  | text | array | object => simp [Value.kind, looseKinds] at h

theorem Value.firm_or_loose (value : Value) : value.kind ∈ firmKinds ∨ value.kind ∈ looseKinds := by
  cases value with
  | text | array | object => exact .inl (by simp [Value.kind, firmKinds])
  | expression => exact .inr (by simp [Value.kind, looseKinds])
  | scalar s =>
    refine .inr ?_
    cases hmeaning : s.meaning <;> simp [Value.kind, Meaning.kind, looseKinds, hmeaning]

/-- Only white space follows a place if the text ends once white space is skipped. -/
theorem Cursor.onlyBlanksFrom_iff (c : Cursor) :
    OnlyBlanksFrom c.source c.position ↔ c.skipBlanks.atEnd = true := by
  rw [OnlyBlanksFrom, c.textFrom_position]
  constructor
  · intro hblank
    have hall : c.rest = c.rest ++ [] := (List.append_nil _).symm
    have hrest : c.skipBlanks.rest = [] := (Cursor.rest_matchWhile hall hblank rfl).2
    rw [atEnd, hrest]
    rfl
  · exact Cursor.isBlank_of_atEnd

section Document

variable (options : ReadOptions) (hooks : Hooks σ) (state : σ) (source : List Char)

/-- The value that is read first at the start of a document, or the placeholder of an empty one. -/
def firstValue : Option Value := (firstRoot options hooks state source).1.value

/-- The options with a loose reading or without. -/
def ReadOptions.looseness (loose : Bool) : ReadOptions := { options with loose := loose }

/-- The text ends behind the value that was read first just if only white space follows. -/
theorem firstRoot_atEnd_iff {value : Value}
    (h : firstValue options hooks state source = some value) :
    (firstRoot options hooks state source).1.after.1.atEnd = true ↔
      OnlyBlanksFrom source value.span.stop := by
  have hsource := documentStart_source options hooks state source
  have hread := firstRoot_read options hooks state source
  rw [firstValue] at h
  generalize firstRoot options hooks state source = first at hread h
  cases hread with
  | @empty value hend hvalue =>
    obtain rfl := Option.some.inj h
    have hstop : value.span.stop = (documentStart options hooks state source).position := by
      rw [hvalue, Cursor.sourceLength, hend, byteLength_nil, Nat.add_zero]
      cases options.emptyInput <;> rfl
    have hiff := (documentStart options hooks state source).onlyBlanksFrom_iff
    rw [hsource, ← hstop, Cursor.atEnd, Cursor.rest_skipBlanks_nil hend] at hiff
    rw [hiff, Cursor.atEnd, hend]
  | @value _ d _ hvalue =>
    obtain rfl := Option.some.inj h
    have hiff := d.1.onlyBlanksFrom_iff
    rw [Cursor.source_eq_of_lt d.2, hsource] at hiff
    rw [(readValue_placed hvalue).1]
    exact hiff.symm
  | none => simp at h

/-- A value that may be loose is read without a problem, and so is the placeholder. -/
theorem firstRoot_clean {value : Value} (h : firstValue options hooks state source = some value)
    (hkind : value.kind ∈ looseKinds ∨ (documentStart options hooks state source).atEnd = true) :
    (firstRoot options hooks state source).2.problems = #[] := by
  have hopen := (openDocument_empty source options hooks state).1
  have hread := firstRoot_read options hooks state source
  rw [firstValue] at h
  generalize firstRoot options hooks state source = first at hread h
  cases hread with
  | empty => exact hopen
  | @value _ d t hvalue =>
    obtain rfl := Option.some.inj h
    have hrest := Cursor.rest_ne_nil_of_lt d.2
    have hloose := mayBeLoose_eq_true (hkind.resolve_right (by simpa [Cursor.atEnd] using hrest))
    by_cases hsame : t.problems = (openDocument options hooks state source).2.problems
    · exact hsame.trans hopen
    · rw [readValue_composite hvalue hsame] at hloose
      simp at hloose
  | none => simp at h

/-- A missing value is a problem, and a value that more than white space follows leaves text. -/
theorem firstRoot_more (h : ∀ value, firstValue options hooks state source = some value →
      ¬ OnlyBlanksFrom source value.span.stop) :
    ((firstRoot options hooks state source).2.hasProblems ||
      !(firstRoot options hooks state source).1.after.1.atEnd) = true := by
  cases hfirst : firstValue options hooks state source with
  | some value =>
    have hiff := firstRoot_atEnd_iff options hooks state source hfirst
    simp [Bool.eq_false_iff.mpr (fun hend => h value hfirst (hiff.mp hend))]
  | none =>
    have hread := firstRoot_read options hooks state source
    rw [firstValue] at hfirst
    generalize firstRoot options hooks state source = first at hread hfirst
    cases hread with
    | empty | value => simp at hfirst
    | none => simp [Session.hasProblems, Session.push]

/-! ### The two readings -/

/-- Where the value may be loose, a loose reading takes the text as a string unless there is no
problem and nothing behind the value. -/
theorem wantsString_loose {c : Cursor} (root : Root c) (s : Session σ)
    (hloose : mayBeLoose root.value = true) :
    wantsString (options.looseness true) root (noteRemainder (options.looseness true) root s) =
      (s.hasProblems || !root.after.1.atEnd) := by
  have hon : (options.looseness true).loose = true := rfl
  have hpush : (s.push .trailingText root.after.1.position).hasProblems = true := by
    simp [Session.hasProblems, Session.push]
  unfold noteRemainder
  dsimp only
  rw [hon, hloose]
  cases hproblems : s.hasProblems with
  | true => simp [wantsString, hon, hloose, hproblems]
  | false =>
    cases hexpression : isExpression root.value with
    | true => simp [wantsString, hproblems, hexpression]
    | false =>
      cases hend : root.after.1.atEnd with
      | true => simp [wantsString, hproblems, hexpression]
      | false => simp [wantsString, hon, hloose, hpush]

/-- Two readings of one text agree if they note the same and take the same for a string. -/
theorem readDocument_looseness_congr
    (hnoted : notedSession (options.looseness true) hooks state source =
      notedSession (options.looseness false) hooks state source)
    (hrereads : rereads (options.looseness true) hooks state source =
      rereads (options.looseness false) hooks state source) :
    readDocument (options.looseness true) hooks state source =
      readDocument (options.looseness false) hooks state source := by
  rw [readDocument_eq, readDocument_eq, finalReading, finalReading, rereadText, rereadText, hnoted,
    hrereads]
  rfl

/-- A value that is not loose leaves nothing for the looseness to decide. -/
theorem readDocument_firm (h : mayBeLoose (firstValue options hooks state source) = false) :
    readDocument (options.looseness true) hooks state source =
      readDocument (options.looseness false) hooks state source := by
  have hsame (loose : Bool) :
      (loose && mayBeLoose (firstValue options hooks state source)) = false := by
    rw [h, Bool.and_false]
  have hnoted : notedSession (options.looseness true) hooks state source =
      notedSession (options.looseness false) hooks state source := by
    change noteRemainder _ (firstRoot options hooks state source).1 _ =
      noteRemainder _ (firstRoot options hooks state source).1 _
    unfold noteRemainder
    dsimp only
    rw [← firstValue, hsame]
    rfl
  refine readDocument_looseness_congr options hooks state source hnoted ?_
  rw [rereads, rereads, hnoted]
  change wantsString _ (firstRoot options hooks state source).1 _ =
    wantsString _ (firstRoot options hooks state source).1 _
  unfold wantsString
  dsimp only
  rw [← firstValue, hsame]
  rfl

/-- A value without problems that ends its text is kept, loose or not. -/
theorem notedSession_alone
    (hproblems : (firstRoot options hooks state source).2.problems = #[])
    (hend : (firstRoot options hooks state source).1.after.1.atEnd = true) (loose : Bool) :
    notedSession (options.looseness loose) hooks state source =
        (firstRoot options hooks state source).2 ∧
      rereads (options.looseness loose) hooks state source = false := by
  have hnoted : notedSession (options.looseness loose) hooks state source =
      (firstRoot options hooks state source).2 := by
    change noteRemainder _ (firstRoot options hooks state source).1
      (firstRoot options hooks state source).2 = _
    simp [noteRemainder, hend]
  refine ⟨hnoted, ?_⟩
  rw [rereads, hnoted]
  change wantsString _ (firstRoot options hooks state source).1 _ = false
  simp [wantsString, Session.hasProblems, hproblems, hend]

end Document

/-- What the loose and the strict reading of `source` come to, by the value that stands first. -/
structure LooselyRead (source : List Char) (start : Cursor) (first : Option Value)
    (loose strict : Except Problem Document × σ) : Prop where
  firm : ∀ value, first = some value → value.kind ∈ firmKinds → loose = strict
  alone : ∀ value, first = some value → value.kind ∈ looseKinds ∨ start.atEnd = true →
    OnlyBlanksFrom source value.span.stop →
    loose = strict ∧ ∃ document, loose.1 = .ok document ∧ document.root = some value ∧
      document.problems = [] ∧ document.readAsString = false
  otherwise : (∀ value, first = some value →
      value.kind ∉ firmKinds ∧ ¬ OnlyBlanksFrom source value.span.stop) →
    ∃ document text, loose.1 = .ok document ∧ document.problems = [] ∧
      document.readAsString = true ∧ document.root = some (.text text) ∧ text.quote = none ∧
      text.span = ⟨start.position, byteLength source⟩

/-- A loose reading is the strict one if the value is a string, an array or an object, or if any
other value stands alone; whatever else the text holds becomes a string, under all other options. -/
theorem readDocument_loose (options : ReadOptions) (hooks : Hooks σ) (state : σ)
    (source : List Char) :
    LooselyRead source (documentStart options hooks state source)
      (firstValue options hooks state source)
      (readDocument (options.looseness true) hooks state source)
      (readDocument (options.looseness false) hooks state source) where
  firm value hvalue hkind :=
    readDocument_firm options hooks state source (by rw [hvalue]; exact mayBeLoose_eq_false hkind)
  alone value hvalue hkind hblank := by
    have hproblems := firstRoot_clean options hooks state source hvalue hkind
    have hend := (firstRoot_atEnd_iff options hooks state source hvalue).mpr hblank
    obtain ⟨hnoted, hkeeps⟩ := notedSession_alone options hooks state source hproblems hend true
    obtain ⟨hnoted', hkeeps'⟩ := notedSession_alone options hooks state source hproblems hend false
    refine ⟨readDocument_looseness_congr options hooks state source (hnoted.trans hnoted'.symm)
      (hkeeps.trans hkeeps'.symm), ?_⟩
    have hread := readDocument_read (options.looseness true) hooks state source
    generalize readDocument (options.looseness true) hooks state source = outcome at hread
    cases hread with
    | asValue => exact ⟨_, rfl, hvalue, by simp [hnoted, hproblems], rfl⟩
    | asString hrereads => simp [hkeeps] at hrereads
    | failed _ _ hproblem => simp [hnoted, hproblems] at hproblem
  otherwise hother := by
    have hloose : mayBeLoose (firstValue options hooks state source) = true := by
      cases hfirst : firstValue options hooks state source with
      | none => rfl
      | some value =>
        exact mayBeLoose_eq_true (value.firm_or_loose.resolve_left (hother value hfirst).1)
    have hmore := firstRoot_more options hooks state source fun value hvalue =>
      (hother value hvalue).2
    have hrereads : rereads (options.looseness true) hooks state source = true :=
      (wantsString_loose options (firstRoot options hooks state source).1 _ hloose).trans hmore
    have hlength := (documentStart options hooks state source).sourceLength_eq
    rw [documentStart_source] at hlength
    obtain ⟨hspan, hquote, -⟩ := rereadText_spec (options.looseness true) hooks state source
    have hread := readDocument_read (options.looseness true) hooks state source
    generalize readDocument (options.looseness true) hooks state source = outcome at hread
    cases hread with
    | asString => exact ⟨_, _, rfl, rfl, rfl, rfl, hquote, hlength ▸ hspan⟩
    | asValue hkeeps => simp [hrereads] at hkeeps
    | failed hkeeps => simp [hrereads] at hkeeps

/-- A keyword with a letter behind it becomes a string. -/
theorem readDocument_loose_letter :
    (readDocument (({ onError := .stop } : ReadOptions).looseness false) ({} : Hooks Unit) ()
        "true é".toList).1.toOption.map (·.problems) = some [⟨.trailingText, 5⟩] ∧
    ∃ document text, (readDocument (({ onError := .stop } : ReadOptions).looseness true)
        ({} : Hooks Unit) () "true é".toList).1 = .ok document ∧ document.problems = [] ∧
      document.readAsString = true ∧ document.root = some (.text text) ∧ text.quote = none ∧
      text.span = ⟨0, 7⟩ := by
  have hfirst : (firstValue ({ onError := .stop } : ReadOptions) ({} : Hooks Unit) ()
      "true é".toList).map (fun value => (value.kind, value.span)) = some (.boolean, ⟨0, 4⟩) := by
    decide +kernel
  have hstart : (documentStart ({ onError := .stop } : ReadOptions) ({} : Hooks Unit) ()
      "true é".toList).position = 0 := by decide +kernel
  have hletter : textFrom "true é".toList 4 = [' ', 'é'] := by decide
  have hread := readDocument_loose { onError := .stop } ({} : Hooks Unit) () "true é".toList
  have hloose := hread.otherwise
  rw [hstart] at hloose
  refine ⟨by decide +kernel, hloose ?_⟩
  intro value hvalue
  rw [hvalue, Option.map_some, Option.some_inj, Prod.mk.injEq] at hfirst
  obtain ⟨hkind, hspan⟩ := hfirst
  refine ⟨by simp [hkind, firmKinds], fun hblank => ?_⟩
  rw [OnlyBlanksFrom, hspan, hletter] at hblank
  exact absurd (hblank 'é' (by simp)) (by decide)

end DataTemplate
