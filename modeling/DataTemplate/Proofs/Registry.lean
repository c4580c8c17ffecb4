/-
The registry of expressions beside the tree.  A session records an expression as soon as it is read,
long before the node that holds it is complete; this module accounts for every record.  Main
statements: `readValue_registers` and `readDocument_expressions`, which says that the registry holds
the expressions of the tree in document order and, between them, those of detached values.
-/
import DataTemplate.Proofs.Detached
import DataTemplate.Proofs.Policies

namespace DataTemplate

variable {σ : Type} {n : Nat}

/-- The registry holds the `kept` expressions in their order and the `dropped` ones in between. -/
structure Session.Registers (s : Session σ) (kept dropped : List Expression) : Prop where
  sublist : kept.Sublist s.expressions.toList
  perm : s.expressions.toList.Perm (kept ++ dropped)

namespace Session.Registers

variable {s t : Session σ} {kept dropped : List Expression}

theorem of_eq (h : s.Registers kept dropped) (heq : t.expressions = s.expressions) :
    t.Registers kept dropped := by
  obtain ⟨hsublist, hperm⟩ := h
  rw [← heq] at hsublist hperm
  exact ⟨hsublist, hperm⟩

theorem observe (h : s.Registers kept dropped) (node : Node) :
    (s.observe node).Registers kept dropped := h.of_eq rfl

theorem push (h : s.Registers kept dropped) {e : Expression}
    (heq : t.expressions = s.expressions.push e) : t.Registers (kept ++ [e]) dropped := by
  have hlist : t.expressions.toList = s.expressions.toList ++ [e] := by simp [heq]
  constructor
  · rw [hlist]
    exact h.sublist.append (List.Sublist.refl _)
  · rw [hlist]
    have hswap : (kept ++ dropped ++ [e]).Perm (kept ++ [e] ++ dropped) := by
      rw [List.append_assoc, List.append_assoc]
      exact List.perm_append_comm.append_left kept
    exact (h.perm.append_right [e]).trans hswap

/-- What was kept last may be dropped after all. -/
theorem drop {last : List Expression} (h : s.Registers (kept ++ last) dropped) :
    s.Registers kept (dropped ++ last) := by
  refine ⟨(List.sublist_append_left kept last).trans h.sublist, ?_⟩
  refine h.perm.trans ?_
  rw [List.append_assoc]
  exact List.perm_append_comm.append_left kept

/-- Nothing but the kept expressions is there exactly if none was dropped. -/
theorem eq_kept_iff (h : s.Registers kept dropped) :
    s.expressions.toList = kept ↔ dropped = [] := by
  have hlength := h.perm.length_eq
  rw [List.length_append] at hlength
  constructor
  · intro heq
    rw [heq] at hlength
    exact List.eq_nil_of_length_eq_zero (by omega)
  · rintro rfl
    exact (h.sublist.eq_of_length (by simpa using hlength.symm)).symm

end Session.Registers

/-! ### Leaves -/

theorem Session.finishExpression_expressions (s : Session σ) (e : Expression) :
    (s.finishExpression e).2.expressions = s.expressions.push (s.finishExpression e).1 := by
  unfold Session.finishExpression
  split <;> rfl

theorem Session.commit_expressions (s : Session σ) (cause : Cause) (position : Nat) :
    (s.commit cause position).expressions = s.expressions := by
  unfold Session.commit
  split <;> rfl

theorem Session.commitUnclosed_expressions (s : Session σ) (closed : Bool) (cause : Cause)
    (position : Nat) : (s.commitUnclosed closed cause position).expressions = s.expressions := by
  unfold Session.commitUnclosed
  split
  · rfl
  · exact s.commit_expressions cause position

theorem PropertyDraft.flush_expressions (draft : PropertyDraft) (s : Session σ) :
    (draft.flush s).2.expressions = s.expressions := by
  unfold PropertyDraft.flush
  split <;> rfl

theorem PropertyDraft.begin_expressions (draft : PropertyDraft) (key : Key) (s : Session σ) :
    (draft.begin key s).2.expressions = s.expressions := draft.flush_expressions s

section Leaves

variable {c : Cursor} {s t : Session σ} {kept dropped : List Expression}

theorem readExpression_registers {e : Expression} {d : c.After}
    (h : readExpression c s = (some (e, d), t)) (hs : s.Registers kept dropped) :
    t.Registers (kept ++ [e]) dropped := by
  obtain ⟨scanned, -, hfinish⟩ := readExpression_some h
  have hpush := s.finishExpression_expressions scanned
  rw [hfinish] at hpush
  exact hs.push hpush

theorem readContent_registers (quote : Option Quote) (segment c : Cursor) (s : Session σ)
    (hs : s.Registers kept dropped) :
    (readContent quote segment c s).2.2.Registers
      (kept ++ (readContent quote segment c s).1.more.map Prod.fst) dropped := by
  fun_induction readContent quote segment c s generalizing kept with
  | case1 =>
    rw [List.map_nil, List.append_nil]
    exact hs.observe _
  | case2 segment c s hit hfind hneedle t hread hlt content d u hrest ih =>
    obtain ⟨-, rfl⟩ := readExpression_none hread
    rw [hrest] at ih
    exact ih hs
  | case3 segment c s hit hfind hneedle e after t hread hlt first content d u hrest =>
    rename_i ih
    have hnext := ih ((readExpression_registers hread hs).observe _)
    rw [hrest] at hnext
    simpa using hnext
  | case4 =>
    rw [List.map_nil, List.append_nil]
    exact hs.observe _

theorem finishText_registers {quote : Option Quote} {c d : Cursor} {content : Content} {text : Text}
    (h : finishText quote c d content s = (text, t))
    (hs : s.Registers (kept ++ content.more.map Prod.fst) dropped) :
    t.Registers (kept ++ text.more.map Prod.fst) dropped := by
  unfold finishText at h
  obtain ⟨rfl, rfl⟩ := Prod.mk.inj h
  refine hs.of_eq ?_
  split
  · rfl
  · exact s.commit_expressions _ _

theorem readText_registers {text : Text} {d : c.After} (h : readText c s = (some (text, d), t))
    (hs : s.Registers kept dropped) : t.Registers (kept ++ text.more.map Prod.fst) dropped := by
  have hread := readText_read c s
  rw [h] at hread
  cases hread with
  | static _ _ _ hfinish =>
    apply finishText_registers hfinish
    rw [staticContent, List.map_nil, List.append_nil]
    exact hs.observe _
  | @content quote inner _ _ _ _ _ _ _ hcontent hfinish =>
    have hcontent' := readContent_registers (some quote) inner inner s hs
    rw [hcontent] at hcontent'
    exact finishText_registers hfinish hcontent'

theorem readKey_registers {key : Key} {d : c.After} (h : readKey c s = (some (key, d), t))
    (hs : s.Registers kept dropped) : t.Registers (kept ++ key.expressions) dropped := by
  have hread := readKey_read c s
  rw [h] at hread
  cases hread with
  | text h =>
    rw [Key.expressions_text]
    exact readText_registers h hs
  | expression _ h => exact readExpression_registers h hs
  | identifier =>
    have hkept := hs.observe (.identifier ‹_›)
    rwa [← List.append_nil kept] at hkept

end Leaves

/-! ### Arrays -/

/-- The expressions of the values that an array holds so far. -/
def SlotDraft.expressions (draft : SlotDraft) : List Expression :=
  (slotValues draft.slots).flatMap Value.expressions

theorem SlotDraft.expressions_nil : (SlotDraft.expressions {}) = [] := rfl

/-- All expressions in the detached values of the value at `c`. -/
def detachedExpressions (c : Cursor) (s : Session σ) : List Expression :=
  (detachedValues c s).flatMap Value.expressions

/-- The registry accounts for the value that is read at `c`. -/
def RegistersValue (σ : Type) (c : Cursor) : Prop :=
  ∀ ⦃s t : Session σ⦄ ⦃value : Value⦄ ⦃d : c.After⦄ ⦃kept dropped : List Expression⦄,
    readValue c s = (some (value, d), t) → s.Registers kept dropped →
      t.Registers (kept ++ value.expressions) (dropped ++ detachedExpressions c s)

theorem SlotRound.registers {c : Cursor} {hc : c.rest.length < n} {draft : SlotDraft}
    {s : Session σ} {round : Round σ SlotDraft c} {kept dropped : List Expression}
    (hround : SlotRound (fun d _ s => readValue d s) c hc draft s round)
    (hvalues : RegistersValue σ c) (h : s.Registers (kept ++ draft.expressions) dropped) :
    round.session.Registers (kept ++ round.outcome.2.expressions) (dropped ++
      (Moment.slotDetached ⟨c, hc, draft, s⟩).flatMap Value.expressions) := by
  cases hround with
  | ended hend =>
    rw [slotDetached_of_none fun _ => detachedValues_of_none (readValue_end hend s)]
    simpa using h
  | closed hd =>
    rw [slotDetached_of_none fun _ => detachedValues_of_moves hd (by decide) (by decide) s]
    simpa using h
  | comma hd =>
    rw [slotDetached_of_none fun _ => detachedValues_of_moves hd (by decide) (by decide) s]
    simpa [Round.outcome, SlotDraft.expressions, SlotDraft.values_comma] using h
  | comment hd =>
    have hlooks : Moment.slotDetached ⟨c, hc, draft, s⟩ = [] := by
      simp [Moment.slotDetached, Moment.slotLooks, hd]
    rw [hlooks]
    simpa [Session.observeComment] using h.observe _
  | @value value d t hcomment hopen hvalue =>
    have hlooks : Moment.slotDetached ⟨c, hc, draft, s⟩ = detachedValues c s := by
      simp [Moment.slotDetached, Moment.slotLooks, hcomment, hopen]
    have hfill : (draft.fill value).expressions = draft.expressions ++ value.expressions := by
      simp [SlotDraft.expressions, SlotDraft.values_fill hopen]
    rw [hlooks]
    change t.Registers (kept ++ (draft.fill value).expressions) _
    rw [hfill, ← List.append_assoc]
    exact hvalues hvalue h
  | halt hnone =>
    rw [slotDetached_of_none fun hopen => detachedValues_of_none (hnone hopen)]
    simpa using h.of_eq (s.commit_expressions _ _)
  | recover hnone =>
    rw [slotDetached_of_none fun hopen => detachedValues_of_none (hnone hopen)]
    simpa using h.of_eq (s.commit_expressions _ _)

theorem readSlots_registers (hvalues : ∀ ⦃c⦄, c.rest.length < n → RegistersValue σ c) {c : Cursor}
    (hc : c.rest.length < n) (s : Session σ) {kept dropped : List Expression}
    (h : s.Registers kept dropped) :
    (readSlots (fun d _ s => readValue d s) c hc {} s).2.2.2.Registers
      (kept ++ (readSlots (fun d _ s => readValue d s) c hc {} s).2.1.expressions)
      (dropped ++ ((moments (slotStep fun d _ s => readValue d s) c hc {} s).flatMap
        Moment.slotDetached).flatMap Value.expressions) := by
  rw [readSlots_eq_rounds]
  refine rounds_collects _ Moment.slotDetached (fun draft s found => s.Registers
    (kept ++ draft.expressions) (dropped ++ found.flatMap Value.expressions)) ?_ hc {} s ?_
  · intro c hc draft s found hfound
    rw [List.flatMap_append, ← List.append_assoc]
    exact (slotStep_round readValue_quiet c hc draft s).registers (hvalues hc) hfound
  · rw [SlotDraft.expressions_nil, List.flatMap_nil, List.append_nil, List.append_nil]
    exact h

/-! ### Objects -/

/-- The expressions of the properties that an object holds so far. -/
def PropertyDraft.expressions (draft : PropertyDraft) : List Expression :=
  draft.properties.flatMap Property.expressions

namespace PropertyDraft

variable {draft : PropertyDraft}

theorem expressions_nil : expressions {} = [] := rfl

theorem expressions_flush (draft : PropertyDraft) (s : Session σ) :
    (draft.flush s).1.expressions = draft.expressions := by
  rw [expressions, properties_flush, expressions]

theorem expressions_begin (draft : PropertyDraft) (key : Key) (s : Session σ) :
    (draft.begin key s).1.expressions = draft.expressions ++ key.expressions := by
  simp [expressions, properties_begin, Property.expressions]

/-- A change that leaves key and value alone leaves the expressions alone. -/
theorem expressions_modify (draft : PropertyDraft) {f : Property Value → Property Value}
    (hf : ∀ p, (f p).expressions = p.expressions) :
    (draft.modify f).expressions = draft.expressions := by
  cases hcurrent : draft.current with
  | none => simp [expressions, properties, modify, hcurrent]
  | some p => simp [expressions, properties, modify, hcurrent, hf p]

theorem expressions_colon (draft : PropertyDraft) (position : Nat) :
    (draft.colon position).expressions = draft.expressions :=
  draft.expressions_modify fun _ => rfl

theorem expressions_comma (draft : PropertyDraft) (position : Nat) :
    (draft.comma position).expressions = draft.expressions :=
  draft.expressions_modify fun _ => rfl

theorem expressions_fill_none (hcurrent : draft.current = none) (value : Value) :
    (draft.fill value).expressions = draft.expressions := by
  simp [expressions, properties, fill, modify, hcurrent]

theorem expressions_fill_some {p : Property Value} (hcurrent : draft.current = some p)
    (hvalue : p.value = none) (value : Value) :
    (draft.fill value).expressions = draft.expressions ++ value.expressions := by
  simp [expressions, properties, fill, modify, hcurrent, Property.expressions, hvalue]

end PropertyDraft

theorem PropertyRecovery.registers {c : Cursor} {draft : PropertyDraft} {s : Session σ}
    {round : Round σ PropertyDraft c} {kept dropped : List Expression}
    (hround : PropertyRecovery c draft s round)
    (h : s.Registers (kept ++ draft.expressions) dropped) :
    round.session.Registers (kept ++ round.outcome.2.expressions) dropped := by
  cases hround with
  | lost => exact h
  | closed => exact h
  | comma => simpa [PropertyDraft.expressions_comma] using h
  | @key landing key d t _ _ _ hkey _ =>
    have hnext := (readKey_registers hkey h).of_eq (draft.begin_expressions key t)
    simpa [PropertyDraft.expressions_colon, PropertyDraft.expressions_begin] using hnext
  | @detach landing tried _ _ _ htried =>
    have hgrows : s.Grows (readKey c s).2 := Session.Grows.law.key (c := c) rfl
    rw [← htried] at hgrows
    have hback : (tried.rollback s.checkpoint).expressions = s.expressions := by
      rw [hgrows.rollback_eq]
    have hnext := (h.of_eq hback).of_eq (draft.flush_expressions _)
    simpa [PropertyDraft.expressions_colon, PropertyDraft.expressions_flush] using hnext

theorem PropertyRound.registers {c : Cursor} {hc : c.rest.length < n} {draft : PropertyDraft}
    {s : Session σ} {round : Round σ PropertyDraft c} {kept dropped : List Expression}
    (hround : PropertyRound (fun d _ s => readValue d s) c hc draft s round)
    (hvalues : RegistersValue σ c) (hlacks : draft.Lacks)
    (h : s.Registers (kept ++ draft.expressions) dropped) :
    round.session.Registers (kept ++ round.outcome.2.expressions) (dropped ++
      (Moment.propertyDetached ⟨c, hc, draft, s⟩).flatMap Value.expressions) := by
  cases hround with
  | ended hend =>
    rw [propertyDetached_of_none fun _ => readValue_end hend s]
    simpa using h
  | comment hd =>
    have hlooks : Moment.propertyDetached ⟨c, hc, draft, s⟩ = [] := by
      simp [Moment.propertyDetached, Moment.propertyLooks, hd]
    rw [hlooks]
    simpa [Session.observeComment] using h.observe _
  | closed hd hle hawaited =>
    rw [propertyDetached_of_none (by rcases hawaited with h | h <;> simp [h])]
    simpa using h
  | @key key d t hawaited hkey =>
    have hnext := (readKey_registers hkey h).of_eq (draft.begin_expressions key t)
    rw [propertyDetached_of_none (by simp [hawaited])]
    simpa [PropertyDraft.expressions_begin] using hnext
  | colon hawaited =>
    rw [propertyDetached_of_none (by simp [hawaited])]
    simpa [PropertyDraft.expressions_colon] using h
  | @value value d t hcomment hawaited hvalue =>
    have hnext := hvalues hvalue h
    have hlooks : Moment.propertyLooks ⟨c, hc, draft, s⟩ = true := by
      simp [Moment.propertyLooks, hcomment, hawaited]
    cases hcurrent : draft.current with
    | none =>
      have hdetached : Moment.propertyDetached ⟨c, hc, draft, s⟩ =
          detachedValues c s ++ [value] := by
        simp [Moment.propertyDetached, hlooks, Moment.unowned, hcurrent, hvalue]
      rw [hdetached]
      simpa [PropertyDraft.expressions_fill_none hcurrent, detachedExpressions] using hnext.drop
    | some p =>
      have hdetached : Moment.propertyDetached ⟨c, hc, draft, s⟩ = detachedValues c s := by
        simp [Moment.propertyDetached, hlooks, Moment.unowned, hcurrent]
      have hnone := (hlacks.of_value hawaited p hcurrent).1
      rw [hdetached]
      simpa [PropertyDraft.expressions_fill_some hcurrent hnone, detachedExpressions] using hnext
  | comma hawaited =>
    rw [propertyDetached_of_none (by simp [hawaited])]
    simpa [PropertyDraft.expressions_comma] using h
  | halt hnone =>
    rw [propertyDetached_of_none hnone]
    simpa using h.of_eq (s.commit_expressions _ _)
  | recover hnone _ hround =>
    rw [propertyDetached_of_none hnone]
    simpa using hround.registers (h.of_eq (s.commit_expressions _ _))

theorem readProperties_registers (hvalues : ∀ ⦃c⦄, c.rest.length < n → RegistersValue σ c)
    {c : Cursor} (hc : c.rest.length < n) (s : Session σ) {kept dropped : List Expression}
    (h : s.Registers kept dropped) :
    (readProperties (fun d _ s => readValue d s) c hc {} s).2.2.2.Registers
      (kept ++ (readProperties (fun d _ s => readValue d s) c hc {} s).2.1.expressions)
      (dropped ++ ((moments (propertyStep fun d _ s => readValue d s) c hc {} s).flatMap
        Moment.propertyDetached).flatMap Value.expressions) := by
  rw [readProperties_eq_rounds]
  refine (rounds_collects _ Moment.propertyDetached (fun draft s found => draft.Lacks ∧ s.Registers
    (kept ++ draft.expressions) (dropped ++ found.flatMap Value.expressions)) ?_ hc {} s ?_).2
  · rintro c hc draft s found ⟨hlacks, hfound⟩
    have hround := propertyStep_round readValue_quiet c hc draft s
    rw [List.flatMap_append, ← List.append_assoc]
    exact ⟨hround.lacks hlacks, hround.registers (hvalues hc) hlacks hfound⟩
  · rw [PropertyDraft.expressions_nil, List.flatMap_nil, List.append_nil, List.append_nil]
    exact ⟨by simp [PropertyDraft.Lacks], h⟩

/-! ### Values -/

/-- The registry accounts for every value. -/
theorem readValue_registers (c : Cursor) : RegistersValue σ c := by
  intro s t value d kept dropped h hs
  have hread := readValue_read c s
  rw [h] at hread
  cases hread with
  | @text text d t htext =>
    obtain ⟨quote, hquote⟩ := readText_some_quote htext
    rw [detachedExpressions, detachedValues_of_quote hquote, Value.expressions_text]
    simpa using readText_registers htext hs
  | expression _ hexpression =>
    obtain ⟨scanned, hscan, -⟩ := readExpression_some hexpression
    rw [detachedExpressions, detachedValues_of_scan hscan, Value.expressions_expression]
    simpa using readExpression_registers hexpression hs
  | @array inner hlt d draft closed t _ hinner hslots hvalue hd =>
    subst hvalue
    have hopened := readSlots_opened (σ := σ) readValue_quiet hlt {} s (fun _ => rfl)
    have hloop := readSlots_registers (fun c _ => readValue_registers c) hlt s hs
    rw [hslots] at hopened hloop
    rw [detachedExpressions, detachedValues_array hinner hlt, Value.expressions_array,
      SlotDraft.values_finish hopened]
    exact (hloop.of_eq (t.commitUnclosed_expressions _ _ _)).observe _
  | @object inner hlt d draft closed t u _ hinner hbrace hproperties hu hvalue hd =>
    subst hvalue hu
    have hloop := readProperties_registers (fun c _ => readValue_registers c) hlt s hs
    rw [hproperties] at hloop
    rw [detachedExpressions, detachedValues_object hinner hbrace hlt, Value.expressions_object,
      PropertyDraft.finished_flush]
    have hunclosed := hloop.of_eq (t.commitUnclosed_expressions closed draft.awaited.missing
      d.1.position)
    exact (hunclosed.of_eq (draft.flush_expressions _)).observe _
  | scalar hbracket hbrace =>
    rw [detachedExpressions, detachedValues_of_head hbracket hbrace, Value.expressions_scalar]
    simpa using hs.observe _
termination_by c.rest.length

/-! ### Documents -/

/-- The expressions of the tree of a document, in document order. -/
def Document.treeExpressions (document : Document) : List Expression :=
  document.root.toList.flatMap Value.expressions

section Documents

variable (options : ReadOptions) (hooks : Hooks σ) (state : σ) (source : List Char)

/-- The values that a document leaves out of its tree.  A text that is read again as a string leaves
nothing out. -/
def documentDetached : List Value :=
  if rereads options hooks state source then []
  else
    detachedValues (documentStart options hooks state source)
      (openDocument options hooks state source).2

theorem skipTrivia_expressions (c : Cursor) (s : Session σ) :
    (skipTrivia c s).2.expressions = s.expressions := by
  obtain ⟨state, hs⟩ := skipTrivia_session c s
  rw [hs]

theorem noteRemainder_expressions {c : Cursor} (root : Root c) (s : Session σ) :
    (noteRemainder options root s).expressions = s.expressions := by
  rcases noteRemainder_cases options root s with hsame | ⟨position, hnoted⟩
  · rw [hsame]
  · rw [hnoted]
    rfl

theorem openDocument_registers : (openDocument options hooks state source).2.Registers [] [] := by
  have hstart : (Session.start hooks state options.onError.halts).Registers [] [] :=
    ⟨List.nil_sublist _, .nil⟩
  exact hstart.of_eq (skipTrivia_expressions _ _)

theorem readRoot_registers (emptyInput : EmptyInput) (c : Cursor) {s : Session σ}
    (h : s.Registers [] []) :
    (readRoot emptyInput c s).2.Registers
      ((readRoot emptyInput c s).1.value.toList.flatMap Value.expressions)
      (detachedExpressions c s) := by
  unfold readRoot
  split
  · rename_i hend
    have hempty : c.rest = [] := by simpa [Cursor.atEnd] using hend
    have hvalue : (emptyInput.value c.position).expressions = [] := by
      cases emptyInput with
      | asUndefined => exact Value.expressions_scalar _
      | asEmptyString => exact Value.expressions_text _
    rw [detachedExpressions, detachedValues_of_none (readValue_end hempty s)]
    simpa [hvalue] using h.observe _
  · cases hread : readValue c s with
    | mk found t =>
      cases found with
      | none =>
        rw [detachedExpressions, detachedValues_of_none hread]
        obtain rfl := readValue_none hread
        exact h.of_eq rfl
      | some found => simpa using readValue_registers c hread h

theorem finalReading_registers :
    (finalReading options hooks state source).2.Registers
      ((finalReading options hooks state source).1.toList.flatMap Value.expressions)
      ((documentDetached options hooks state source).flatMap Value.expressions) := by
  unfold finalReading documentDetached
  split
  · have hempty : (notedSession options hooks state source).clearProblems.restartExpressions.Registers
        [] [] := ⟨List.nil_sublist _, .nil⟩
    have hcontent := readContent_registers none (documentStart options hooks state source)
      (documentStart options hooks state source) _ hempty
    rw [Option.toList_some, List.flatMap_cons, Value.expressions_text, List.flatMap_nil,
      List.append_nil]
    exact finishText_registers rfl hcontent
  · have hroot := readRoot_registers options.emptyInput (documentStart options hooks state source)
      (openDocument_registers options hooks state source)
    exact hroot.of_eq (noteRemainder_expressions options _ _)

theorem readRoot_detaches (emptyInput : EmptyInput) {c : Cursor} {s : Session σ}
    (h : detachedValues c s ≠ []) : (readRoot emptyInput c s).2.Recovering := by
  have hrecovering := readValue_detaches c h
  unfold readRoot
  split
  · rename_i hend
    have hempty : c.rest = [] := by simpa [Cursor.atEnd] using hend
    exact absurd (detachedValues_of_none (readValue_end hempty s)) h
  · cases hread : readValue c s with
    | mk found t =>
      rw [hread] at hrecovering
      cases found with
      | none => exact absurd (detachedValues_of_none hread) h
      | some found => exact hrecovering

/-- A document has detached values only under the policy that goes on after problems, and only if it
has problems. -/
theorem documentDetached_recovers (h : documentDetached options hooks state source ≠ []) :
    options.onError = .recover ∧
      (finalReading options hooks state source).2.problems ≠ #[] := by
  unfold documentDetached at h
  unfold finalReading
  split at h
  · exact absurd rfl h
  · rename_i hkeeps
    rw [if_neg hkeeps]
    constructor
    · have hgrows := readValue_grows (c := documentStart options hooks state source)
        (s := (openDocument options hooks state source).2) rfl
      have hhalts := hgrows.haltOnProblem_eq.symm.trans (readValue_detaches _ h).goes_on
      rw [openDocument_haltOnProblem] at hhalts
      exact ErrorPolicy.eq_recover hhalts
    · have hrecovering := readRoot_detaches options.emptyInput h
      have hnoted : notedSession options hooks state source =
          (firstRoot options hooks state source).2 :=
        noteRemainder_of_problems options _ hrecovering.has_problem
      rw [hnoted]
      exact hrecovering.has_problem

/-- The registry of a document holds the expressions of its tree in document order, and between them
those of detached values.  So it is the list of the expressions of the tree exactly if there is
none in a detached value.  Only a document with problems, read under the policy that recovers, has
detached values. -/
theorem readDocument_expressions {document : Document}
    (hdocument : (readDocument options hooks state source).1 = .ok document) :
    document.treeExpressions.Sublist document.expressions ∧
      document.expressions.Perm (document.treeExpressions ++
        (documentDetached options hooks state source).flatMap Value.expressions) ∧
      (document.expressions = document.treeExpressions ↔
        ∀ value ∈ documentDetached options hooks state source, value.expressions = []) ∧
      (documentDetached options hooks state source ≠ [] →
        options.onError = .recover ∧ document.problems ≠ []) := by
  obtain ⟨hroot, hexpressions, hproblems⟩ := readDocument_ok options hooks state source hdocument
  have hregisters := finalReading_registers options hooks state source
  rw [← hroot] at hregisters
  rw [Document.treeExpressions, hexpressions]
  refine ⟨hregisters.sublist, hregisters.perm, ?_, ?_⟩
  · rw [hregisters.eq_kept_iff, List.flatMap_eq_nil_iff]
  · intro hdetached
    obtain ⟨hpolicy, hproblem⟩ := documentDetached_recovers options hooks state source hdetached
    rw [hproblems]
    exact ⟨hpolicy, fun hnil => hproblem (Array.toList_eq_nil_iff.mp hnil)⟩

end Documents

/-- The value after a colon without a key is in no property, but its expression is registered. -/
theorem readDocument_expressions_detached :
    ∃ document,
      (readDocument { onError := .recover } ({} : Hooks Unit) ()
        "\x7b:\x7b\x7ba\x7d\x7d\x7d".toList).1 = .ok document ∧
      document.treeExpressions = [] ∧ document.expressions ≠ [] ∧
      (document.expressions = document.treeExpressions ↔
        ∀ value ∈ documentDetached { onError := .recover } ({} : Hooks Unit) ()
          "\x7b:\x7b\x7ba\x7d\x7d\x7d".toList, value.expressions = []) := by
  have hdocument : ∃ document, (readDocument { onError := .recover } ({} : Hooks Unit) ()
      "\x7b:\x7b\x7ba\x7d\x7d\x7d".toList).1 = .ok document ∧
      document.treeExpressions = [] ∧ document.expressions ≠ [] := ⟨_, rfl, by decide +kernel⟩
  obtain ⟨document, hdocument, htree, hexpressions⟩ := hdocument
  exact ⟨document, hdocument, htree, hexpressions,
    (readDocument_expressions _ _ _ _ hdocument).2.2.1⟩

end DataTemplate
