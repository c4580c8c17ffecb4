/-
Numbers as numeric literals of generated code.  A number of a tree is copied into the code as it was
written, so it must be a literal there too.  It is one, in the notation and with the value that it
was read with, but for zeros in front of a whole part, which strict code does not have.  Main
statement: `readDocument_numbers`.
-/
import DataTemplate.Proofs.Layouts
import DataTemplate.Proofs.Spellings

namespace DataTemplate

variable {σ : Type}

/-! ### Numeric literals of strict code -/

/-- The digits of a decimal literal in front of its point: a lone zero, or digits of which the first
is another. -/
inductive WholePart : List Char → Prop
  | zero : WholePart ['0']
  | nonzero {first : Char} {more : List Char} (hne : first ≠ '0')
      (hdigits : ∀ c ∈ first :: more, isDecimalDigit c = true) : WholePart (first :: more)

/-- The exponent of a decimal literal, which may be missing. -/
inductive ExponentPart : List Char → Prop
  | missing : ExponentPart []
  | present {mark : Char} {digits : List Char} (sign : Option Sign)
      (hmark : mark = 'e' ∨ mark = 'E') (hne : digits ≠ [])
      (hdigits : ∀ c ∈ digits, isDecimalDigit c = true) :
      ExponentPart (mark :: (signText sign ++ digits))

/-- The numeric literals of strict code, by their radix if they have a letter for it. -/
inductive StrictLiteral : Option Radix → List Char → Prop
  | whole {whole exponent : List Char} (hwhole : WholePart whole)
      (hexponent : ExponentPart exponent) : StrictLiteral none (whole ++ exponent)
  | point {whole digits exponent : List Char} (hwhole : WholePart whole)
      (hdigits : ∀ c ∈ digits, isDecimalDigit c = true) (hexponent : ExponentPart exponent) :
      StrictLiteral none (whole ++ '.' :: (digits ++ exponent))
  | fraction {digits exponent : List Char} (hne : digits ≠ [])
      (hdigits : ∀ c ∈ digits, isDecimalDigit c = true) (hexponent : ExponentPart exponent) :
      StrictLiteral none ('.' :: (digits ++ exponent))
  | radix {radix : Radix} {digits : List Char} (hne : digits ≠ [])
      (hdigits : ∀ c ∈ digits, radix.isDigit c = true) :
      StrictLiteral (some radix) ('0' :: radix.letter :: digits)

theorem ExponentPart.head_not_digit {exponent rest : List Char} {c : Char}
    (h : ExponentPart exponent) (hhead : exponent = c :: rest) : isDecimalDigit c = false := by
  cases h with
  | missing => simp at hhead
  | present sign hmark _ _ =>
    obtain ⟨rfl, -⟩ := List.cons.inj hhead
    rcases hmark with rfl | rfl <;> rfl

/-- No literal of strict code has a zero in front of another digit. -/
theorem StrictLiteral.second_not_digit {radix? : Option Radix} {text rest : List Char} {c : Char}
    (h : StrictLiteral radix? text) (htext : text = '0' :: c :: rest) :
    isDecimalDigit c = false := by
  cases h with
  | whole hwhole hexponent =>
    cases hwhole with
    | zero => exact hexponent.head_not_digit (List.cons.inj htext).2
    | nonzero hne _ => exact absurd (List.cons.inj htext).1 hne
  | point hwhole _ _ =>
    cases hwhole with
    | zero =>
      obtain ⟨rfl, -⟩ := List.cons.inj (List.cons.inj htext).2
      rfl
    | nonzero hne _ => exact absurd (List.cons.inj htext).1 hne
  | fraction _ _ _ => exact absurd (List.cons.inj htext).1 (by decide)
  | @radix radix digits _ _ =>
    obtain ⟨rfl, -⟩ := List.cons.inj (List.cons.inj htext).2
    cases radix <;> rfl

/-! ### Zeros in front -/

/-- Some digits are zeros and a whole part behind them. -/
theorem exists_wholePart {digits : List Char} (hne : digits ≠ [])
    (hdigits : ∀ c ∈ digits, isDecimalDigit c = true) :
    ∃ zeros whole, digits = List.replicate zeros '0' ++ whole ∧ WholePart whole := by
  induction digits with
  | nil => exact absurd rfl hne
  | cons first more ih =>
    by_cases hfirst : first = '0'
    · subst hfirst
      by_cases hmore : more = []
      · exact ⟨0, ['0'], by simp [hmore], .zero⟩
      · obtain ⟨zeros, whole, rfl, hwhole⟩ := ih hmore fun c hc => hdigits c (by simp [hc])
        exact ⟨zeros + 1, whole, by simp [List.replicate_succ], hwhole⟩
    · exact ⟨0, first :: more, rfl, .nonzero hfirst hdigits⟩

theorem WholePart.head_digit {whole : List Char} (h : WholePart whole) :
    ∃ first more, whole = first :: more ∧ isDecimalDigit first = true := by
  cases h with
  | zero => exact ⟨_, _, rfl, rfl⟩
  | nonzero _ hdigits => exact ⟨_, _, rfl, hdigits _ List.mem_cons_self⟩

/-- Zeros in front of digits do not count. -/
theorem decimalValue_zeros (zeros : Nat) (digits : List Char) :
    decimalValue (List.replicate zeros '0' ++ digits) = decimalValue digits := by
  induction zeros with
  | zero => rfl
  | succ zeros ih => simpa [decimalValue, List.replicate_succ] using ih

/-- The radix that a letter in the spelling of a number stands for. -/
def Magnitude.radix? : Magnitude → Option Radix
  | inRadix radix _ => some radix
  | decimal .. => none

theorem exponentPart_text {exponent : Option Exponent}
    (h : ∀ e, exponent = some e → e.Proper) : ExponentPart (exponentText exponent) := by
  cases exponent with
  | none => exact .missing
  | some e => exact .present e.sign (h e rfl).mark (h e rfl).ne_nil (h e rfl).digits

/-- A number is a literal of strict code behind zeros, and these change neither notation nor value.
Only in front of a digit there may be any. -/
theorem Magnitude.exists_literal {magnitude : Magnitude} (hproper : magnitude.Proper) :
    ∃ (zeros : Nat) (literal : Magnitude),
      magnitude.text = List.replicate zeros '0' ++ literal.text ∧
      (∀ negative, magnitude.value negative = literal.value negative) ∧
      StrictLiteral literal.radix? literal.text ∧
      (zeros ≠ 0 → ∃ c text, literal.text = c :: text ∧ isDecimalDigit c = true) := by
  cases magnitude with
  | inRadix radix digits =>
    exact ⟨0, inRadix radix digits, rfl, fun _ => rfl, .radix hproper.1 hproper.2, by simp⟩
  | decimal digits fraction exponent =>
    obtain ⟨hne, hdigits, hexponent⟩ := hproper
    have hpart := exponentPart_text hexponent
    by_cases hnil : digits = []
    · subst hnil
      cases fraction with
      | none => exact absurd rfl hne
      | some digits =>
        exact ⟨0, decimal [] (some digits) exponent, rfl, fun _ => rfl,
          .fraction hne hdigits hpart, by simp⟩
    · obtain ⟨zeros, whole, rfl, hwhole⟩ :=
        exists_wholePart hnil fun c hc => hdigits c (List.mem_append_left _ hc)
      refine ⟨zeros, decimal whole fraction exponent, by simp [text], ?_, ?_, fun _ => ?_⟩
      · intro negative
        simp only [value, List.append_assoc, decimalValue_zeros]
      · cases fraction with
        | none => simpa [text, fractionText, radix?] using StrictLiteral.whole hwhole hpart
        | some digits =>
          have hfraction : ∀ c ∈ digits, isDecimalDigit c = true :=
            fun c hc => hdigits c (List.mem_append_right _ hc)
          simpa [text, fractionText, radix?] using StrictLiteral.point hwhole hfraction hpart
      · obtain ⟨first, more, rfl, hfirst⟩ := hwhole.head_digit
        exact ⟨first, more ++ (fractionText fraction ++ exponentText exponent), by simp [text],
          hfirst⟩

/-! ### Numbers of a tree -/

/-- How a number of a tree is written.  It is a word or a literal of strict code, behind at most one
sign; zeros may stand between the sign and the literal, and what is behind the sign is a literal of
strict code itself exactly if there are none. -/
inductive Scalar.NumberText (s : Scalar) : Prop
  | word (sign : Option Sign) {word : List Char}
      (hword : word ∈ [['N', 'a', 'N'], ['I', 'n', 'f', 'i', 'n', 'i', 't', 'y']])
      (hraw : s.raw.toList = signText sign ++ word)
  | literal (sign : Option Sign) {zeros : Nat} {literal : Magnitude}
      (hraw : s.raw.toList = signText sign ++ (List.replicate zeros '0' ++ literal.text))
      (hvalue : s.meaning = .number (Numeral.value ⟨sign, literal⟩))
      (hliteral : StrictLiteral literal.radix? literal.text)
      (hstrict : (∃ radix?, StrictLiteral radix? (List.replicate zeros '0' ++ literal.text)) ↔
        zeros = 0)

/-- A keyword that means a number is `NaN` or a signed `Infinity`. -/
theorem keywords_number : ∀ keyword ∈ keywords, ∀ x, keyword.2 = .number x →
    ∃ sign : Option Sign, ∃ word ∈ [['N', 'a', 'N'], ['I', 'n', 'f', 'i', 'n', 'i', 't', 'y']],
      keyword.1 = signText sign ++ word := by
  simp only [keywords, List.forall_mem_cons]
  refine ⟨by simp, by simp, by simp, by simp, fun _ _ => ?_, fun _ _ => ?_, fun _ _ => ?_,
    fun _ _ => ?_, by simp⟩
  · exact ⟨none, _, .tail _ (.head _), rfl⟩
  · exact ⟨none, _, .head _, rfl⟩
  · exact ⟨some .minus, _, .tail _ (.head _), rfl⟩
  · exact ⟨some .plus, _, .tail _ (.head _), rfl⟩

theorem Scalar.numberText {s : Scalar} {x : Binary64} (h : (Node.value (.scalar s)).Spelled)
    (hnumber : s.meaning = .number x) : s.NumberText := by
  obtain ⟨form, hraw, hmeaning⟩ := h
  have hraw : s.raw.toList = form.text := by rw [hraw, String.toList_ofList]
  cases form with
  | keyword word meaning hword =>
    obtain ⟨sign, word, hmem, rfl⟩ := keywords_number _ hword x (hmeaning.symm.trans hnumber)
    exact .word sign hmem hraw
  | number numeral hproper =>
    obtain ⟨zeros, literal, htext, hvalue, hliteral, hzeros⟩ :=
      Magnitude.exists_literal hproper
    rw [ScalarForm.text, Numeral.text, htext] at hraw
    rw [ScalarForm.meaning, Numeral.value, hvalue] at hmeaning
    refine .literal numeral.sign hraw hmeaning hliteral ⟨?_, ?_⟩
    · rintro ⟨radix?, hstrict⟩
      cases zeros with
      | zero => rfl
      | succ zeros =>
        obtain ⟨first, more, hhead, hfirst⟩ := hzeros (Nat.succ_ne_zero zeros)
        -- Behind the first zero comes another one, or the literal, which starts with a digit.
        have hsecond : ∃ c rest, isDecimalDigit c = true ∧
            List.replicate (zeros + 1) '0' ++ literal.text = '0' :: c :: rest := by
          rw [hhead]
          cases zeros with
          | zero => exact ⟨first, more, hfirst, rfl⟩
          | succ zeros => exact ⟨'0', _, rfl, rfl⟩
        obtain ⟨c, rest, hc, htext⟩ := hsecond
        simp [hstrict.second_not_digit htext] at hc
    · rintro rfl
      exact ⟨_, hliteral⟩

theorem Layout.infix_writeAll {layout : Layout} {pieces : List Piece} {text : String}
    (h : .text text ∈ pieces) : text.toList <:+: (layout.writeAll pieces).toList := by
  induction pieces with
  | nil => simp at h
  | cons piece pieces ih =>
    rw [writeAll_cons, String.toList_append]
    rcases List.mem_cons.mp h with rfl | h
    · exact List.infix_append_left
    · exact List.infix_append_of_infix_right (ih h)

/-- Numbers stand in the code as literals.  Whatever the text, the options and the host, every
number of the tree is written as a word or a literal of strict code behind zeros, and the code of
the tree holds it as it is written. -/
theorem readDocument_numbers {options : ReadOptions} {hooks : Hooks σ} {state : σ}
    {source : List Char} {document : Document} {root : Value} {s : Scalar} {x : Binary64}
    (hdocument : (readDocument options hooks state source).1 = .ok document)
    (hroot : document.root = some root)
    (hreaches : (Node.value root).Reaches (.value (.scalar s))) (hnumber : s.meaning = .number x) :
    s.NumberText ∧
      ∀ layout : RenderOptions, s.raw.toList <:+: (root.render layout).toList := by
  have hmem : Node.value (.scalar s) ∈ root.nodes := hreaches.mem_preorder
  refine ⟨Scalar.numberText (readDocument_spelled hdocument hroot _ hmem) hnumber, ?_⟩
  intro layout
  have hcode : s.raw ∈ (Node.value (.scalar s)).codes layout.stringFunction :=
    List.mem_singleton_self s.raw
  obtain ⟨text, htext, hin⟩ := Value.exists_text hmem hcode 0
  exact hin.trans (Layout.infix_writeAll htext)

/-- A number with a zero in front is read, and is no literal of strict code. -/
theorem readDocument_numbers_zeros :
    ∃ (document : Document) (root : Value) (s : Scalar) (x : Binary64),
      (readDocument { onError := .recover } ({} : Hooks Unit) () "07.5".toList).1 = .ok document ∧
      document.root = some root ∧ (Node.value root).Reaches (.value (.scalar s)) ∧
      s.meaning = .number x ∧
      (s.NumberText ∧ ∀ layout : RenderOptions, s.raw.toList <:+: (root.render layout).toList) ∧
      s.raw = "07.5" ∧ ∀ radix?, ¬ StrictLiteral radix? s.raw.toList := by
  have hdocument : ∃ document,
      (readDocument { onError := .recover } ({} : Hooks Unit) () "07.5".toList).1 = .ok document ∧
      document.root =
        some (.scalar ⟨⟨0, 4⟩, "07.5", .number (.finite false 8444249301319680 (-50))⟩) :=
    ⟨_, rfl, by with_unfolding_all rfl⟩
  obtain ⟨document, hdocument, hroot⟩ := hdocument
  refine ⟨document, _, _, _, hdocument, hroot, .refl _, rfl,
    readDocument_numbers hdocument hroot (.refl _) rfl, rfl, ?_⟩
  intro radix? hstrict
  exact absurd (hstrict.second_not_digit rfl) (by decide)

end DataTemplate
