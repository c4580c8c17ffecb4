/-
Printed documents are read back.  Reading what a form is printed as gives the tree that the form
stands for, up to positions, and meets no problem.  Main statement: `parse_printed`.
-/
import DataTemplate.Proofs.Composites

namespace DataTemplate

variable {σ : Type}

/-! ### Parts of forms -/

theorem Form.spelling_eq (form : Form) :
    ∃ x tail, form.spelling = x :: tail ∧ x ∉ breakChars := by
  cases form with
  | scalar form =>
    obtain ⟨x, tail, htail, hx⟩ := form.text_eq
    rw [List.mem_append, not_or] at hx
    exact ⟨x, tail, by rw [spelling, htail], hx.2⟩
  | expression form =>
    obtain ⟨tail, htail⟩ := form.text_eq
    exact ⟨'{', _, by rw [spelling, htail], by decide⟩
  | text form =>
    have hquote : form.quote.char ∉ breakChars := by cases form.quote <;> decide
    exact ⟨_, _, by rw [spelling, TextForm.text], hquote⟩
  | array slots => exact ⟨'[', _, by rw [spelling], by decide⟩
  | emptyObject gap => exact ⟨'{', _, by rw [spelling], by decide⟩
  | object front apart value after more => exact ⟨'{', _, by rw [spelling], by decide⟩


theorem KeyPart.head?_text_ne {front : KeyPart}
    (apart : front.key.isExpression = true → front.before ≠ []) (rest : List Char) :
    (front.text ++ rest).head? ≠ some '{' := by
  have htext : front.text ++ rest = front.before.text ++ (front.key.spelling ++
      (front.after.text ++ ':' :: (front.beforeValue.text ++ rest))) := by
    simp [text]
  rw [htext]
  apply Gap.head?_text_ne
  intro hnil
  obtain ⟨x, tail, htail, -, hx⟩ := front.key.spelling_eq
  have hplain : front.key.isExpression = false :=
    eq_false_of_ne_true fun hexpression => apart hexpression hnil
  simpa [htail] using hx hplain


theorem Braced.reads (form : Braced) : ReadsValue σ form.text (.expression form.node) where
  starts := by simpa [Form.spelling] using (Form.expression form).spelling_eq
  yields _ _ _ hplain _ hc := readValue_expression form hplain hc

theorem TextForm.reads (form : TextForm) : ReadsValue σ form.text (.text form.node) where
  starts := by simpa [Form.spelling] using (Form.text form).spelling_eq
  yields _ _ _ hplain _ hc := readValue_text form hplain hc

theorem KeyPart.reads (front : KeyPart) : ReadsFront σ front.text front.key.node :=
  front.key.reads.front front.before front.after front.beforeValue

/-! ### Forms -/

mutual

/-- Every printed value is read back. -/
theorem Form.reads : ∀ form : Form, ReadsValue σ form.spelling form.tree
  | .scalar form => by
    rw [Form.spelling, Form.tree]
    exact form.reads
  | .expression form => by
    rw [Form.spelling, Form.tree]
    exact form.reads
  | .text form => by
    rw [Form.spelling, Form.tree]
    exact form.reads
  | .array slots => by
    rw [Form.spelling, Form.tree]
    exact .array slots.reads
  | .emptyObject gap => by
    rw [Form.spelling, Form.tree]
    exact .emptyObject gap
  | .object front apart value after more => by
    rw [Form.spelling, Form.tree]
    exact .object (front.head?_text_ne apart) front.reads value.reads after more.reads

theorem SlotForm.reads : ∀ slot : SlotForm, ReadsSlot σ slot.spelling slot.item
  | .gap gap => by
    rw [SlotForm.spelling, SlotForm.item]
    exact .gap gap
  | .value before form after => by
    rw [SlotForm.spelling, SlotForm.item]
    exact .value before after form.reads

theorem SlotForms.reads : ∀ slots : SlotForms, ReadsSlots σ slots.spelling slots.printed
  | .last slot => by
    rw [SlotForms.spelling, SlotForms.printed]
    exact .last slot.reads
  | .cons slot more => by
    rw [SlotForms.spelling, SlotForms.printed]
    exact .cons slot.reads more.reads

theorem MoreProperties.reads :
    ∀ more : MoreProperties, ReadsMore σ more.spelling more.comma more.properties
  | .close => by
    rw [MoreProperties.spelling, MoreProperties.properties]
    exact .close
  | .finalComma gap => by
    rw [MoreProperties.spelling, MoreProperties.properties]
    exact .finalComma gap
  | .cons front value after more => by
    rw [MoreProperties.spelling, MoreProperties.properties]
    exact .cons front.reads value.reads after more.reads

end

/-! ### Documents -/

/-- Reading what a document was printed as gives its tree, and nothing is reported. -/
theorem parse_printed (form : DocumentForm) :
    ∃ document, parse {} (String.ofList form.text) = .ok document ∧
      document.root.map Value.erase = some form.root.tree ∧ document.problems = [] ∧
      document.readAsString = false :=
  parse_reads form.before form.root.reads form.hafter

end DataTemplate
