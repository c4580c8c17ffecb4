/-
Literals of a tree are spelled as the notation has them.  Every keyword, number and bare identifier
that the reader makes is one of the forms that it reads, and means what that form means.  Main
statement: `readDocument_spelled`.
-/
import DataTemplate.Proofs.Drafts
import DataTemplate.Proofs.Literals
import DataTemplate.Proofs.Outcome

namespace DataTemplate

variable {σ : Type} {n : Nat}

/-! ### Literals -/

/-- A keyword, a number or an identifier is spelled as the notation has it. -/
def Node.Spelled : Node → Prop
  | identifier i => ∃ form : IdentifierForm, i.raw = String.ofList form.text
  | value (.scalar s) =>
    ∃ form : ScalarForm, s.raw = String.ofList form.text ∧ s.meaning = form.meaning
  | _ => True

/-- Every literal of a value is spelled as the notation has it. -/
def Value.Spelled (value : Value) : Prop := ∀ node ∈ value.nodes, node.Spelled

/-- What stands for a keyword or a number at the start of a text is one. -/
theorem ScalarForm.of_literalAt? {text raw rest : List Char} {meaning : Meaning}
    (h : literalAt? text = some (raw, meaning, rest)) :
    ∃ form : ScalarForm, raw = form.text ∧ meaning = form.meaning := by
  unfold literalAt? at h
  split at h
  · rename_i word meaning' hword
    obtain ⟨rfl, rfl, -⟩ := by simpa using h
    exact ⟨.keyword word meaning' (List.mem_of_find?_eq_some hword), rfl, rfl⟩
  · obtain ⟨⟨numeral, tail⟩, hscan, heq⟩ := Option.map_eq_some_iff.mp h
    obtain ⟨rfl, rfl, -⟩ := by simpa using heq
    exact ⟨.number numeral (Numeral.scan_eq_some_iff.mp hscan).2.1, rfl, rfl⟩

theorem Scalar.scan_spelled {c : Cursor} {scalar : Scalar} {d : c.After}
    (h : Scalar.scan c = some (scalar, d)) : (Node.value (.scalar scalar)).Spelled := by
  unfold Scalar.scan at h
  split at h
  · simp at h
  · rename_i raw meaning rest hliteral
    obtain ⟨rfl, -⟩ := by simpa using h
    obtain ⟨form, hraw, hmeaning⟩ := ScalarForm.of_literalAt? hliteral
    exact ⟨form, congrArg String.ofList hraw, hmeaning⟩

theorem Identifier.scan_spelled {c : Cursor} {identifier : Identifier} {d : c.After}
    (h : Identifier.scan c = some (identifier, d)) : (Node.identifier identifier).Spelled := by
  unfold Identifier.scan at h
  split at h
  · rename_i hstart
    obtain ⟨rfl, -⟩ := by simpa using h
    cases hrest : c.rest with
    | nil => simp [hrest] at hstart
    | cons x xs =>
      have hfirst : isIdentifierStart x = true := by simpa [hrest] using hstart
      have hrun : c.runOf isIdentifierContinue = x :: xs.takeWhile isIdentifierContinue := by
        simp [Cursor.runOf, hrest, isIdentifierContinue_of_start hfirst]
      exact ⟨⟨x, _, hfirst, forall_mem_takeWhile _ _⟩, congrArg String.ofList hrun⟩
  · simp at h

theorem Text.spelled (t : Text) : ∀ node ∈ t.nodes, node.Spelled := by
  intro node hnode
  rcases List.mem_cons.mp hnode with rfl | hpart
  · trivial
  · obtain ⟨part, -, rfl⟩ := List.mem_map.mp hpart
    cases part <;> trivial

theorem readKey_spelled {c : Cursor} {s t : Session σ} {key : Key} {d : c.After}
    (h : readKey c s = (some (key, d), t)) : ∀ node ∈ key.nodes, node.Spelled := by
  have hread := readKey_read c s
  rw [h] at hread
  cases hread with
  | text => exact Text.spelled _
  | expression => exact List.forall_mem_singleton.mpr trivial
  | identifier _ _ hidentifier =>
    exact List.forall_mem_singleton.mpr (Identifier.scan_spelled hidentifier)

/-! ### Values -/

theorem Property.spelled_nodes_iff (p : Property Value) :
    (∀ node ∈ p.nodes, node.Spelled) ↔
      (∀ node ∈ p.key.nodes, node.Spelled) ∧ ∀ value, p.value = some value → value.Spelled := by
  have hproperty : (Node.property p).Spelled := trivial
  cases hvalue : p.value <;>
    simp [nodes, hvalue, hproperty, Value.Spelled, or_imp, forall_and]

theorem propertyLaw_spelled {rule : ValueRule σ n}
    (hrule : ∀ ⦃c hc s value d t⦄, rule c hc s = (some (value, d), t) → value.Spelled) :
    PropertyLaw rule fun p => ∀ node ∈ p.nodes, node.Spelled where
  key _ _ _ _ _ hkey := by simpa [Property.spelled_nodes_iff] using readKey_spelled hkey
  colon _ _ h := by simpa [Property.spelled_nodes_iff] using h
  value _ _ _ _ _ _ hvalue _ h := by
    rw [Property.spelled_nodes_iff] at h ⊢
    exact ⟨h.1, by simpa using hrule hvalue⟩
  comma _ _ h := by simpa [Property.spelled_nodes_iff] using h

/-- Every literal of a value that is read is spelled as the notation has it. -/
theorem readValue_spelled {c : Cursor} {s t : Session σ} {value : Value} {d : c.After}
    (h : readValue c s = (some (value, d), t)) : value.Spelled := by
  have hread := readValue_read c s
  rw [h] at hread
  unfold Value.Spelled
  cases hread with
  | text => exact Text.spelled _
  | expression => exact List.forall_mem_singleton.mpr trivial
  | @array inner hlt e draft closed u _ hinner hslots hvalue hd =>
    subst hvalue
    have hvalues := readSlots_forall readValue_quiet
      (fun _ _ _ _ _ _ hvalue => readValue_spelled hvalue) hlt s
    rw [hslots] at hvalues
    rw [Value.nodes, slotNodes_eq]
    exact List.forall_mem_cons.mpr ⟨trivial, List.forall_mem_flatMap.mpr hvalues⟩
  | @object inner hlt e draft closed u v _ hinner hbrace hproperties hv hvalue hd =>
    subst hvalue
    have hall := readProperties_forall readValue_quiet
      (propertyLaw_spelled fun _ _ _ _ _ _ hvalue => readValue_spelled hvalue) hlt s
    rw [hproperties] at hall
    rw [Value.nodes, propertyNodes_eq, draft.finished_flush v]
    exact List.forall_mem_cons.mpr ⟨trivial, List.forall_mem_flatMap.mpr hall⟩
  | scalar _ _ hscalar => exact List.forall_mem_singleton.mpr (Scalar.scan_spelled hscalar)
termination_by c.rest.length

/-! ### Documents -/

theorem EmptyInput.value_spelled (emptyInput : EmptyInput) (position : Nat) :
    (emptyInput.value position).Spelled := by
  unfold Value.Spelled
  cases emptyInput with
  | asUndefined =>
    have hword : (['u', 'n', 'd', 'e', 'f', 'i', 'n', 'e', 'd'], Meaning.nullish) ∈ keywords := by
      decide
    exact List.forall_mem_singleton.mpr ⟨.keyword _ _ hword, rfl, rfl⟩
  | asEmptyString => exact Text.spelled _

/-- Every literal of a document is spelled as the notation has it, whatever the text and the
options. -/
theorem readDocument_spelled {options : ReadOptions} {hooks : Hooks σ} {state : σ}
    {source : List Char} {document : Document} {root : Value}
    (hdocument : (readDocument options hooks state source).1 = .ok document)
    (hroot : document.root = some root) : root.Spelled := by
  obtain ⟨hfinal, -, -⟩ := readDocument_ok options hooks state source hdocument
  rw [hroot, finalReading] at hfinal
  split at hfinal
  · obtain rfl := Option.some.inj hfinal
    exact Text.spelled _
  · have hread := firstRoot_read options hooks state source
    generalize firstRoot options hooks state source = outcome at hread hfinal
    cases hread with
    | empty _ hvalue =>
      obtain rfl := Option.some.inj hfinal
      exact hvalue ▸ EmptyInput.value_spelled _ _
    | value hvalue =>
      obtain rfl := Option.some.inj hfinal
      exact readValue_spelled hvalue
    | none => simp at hfinal

end DataTemplate
