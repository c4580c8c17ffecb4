/-
What the rules of the grammar can do.  Each rule comes with the list of its outcomes, so that a law
of the reader is proved outcome by outcome and never opens a rule again.  Main statements:
`slotStep_round`, `propertyStep_round`, `rounds_invariant`, `rounds_closed` and `readValue_read`.
-/
import DataTemplate.Reading.Document

namespace DataTemplate

variable {σ : Type} {n : Nat}

theorem Cursor.moves_next {c : Cursor} {x : Char} {rest : List Char} (h : c.rest = x :: rest) :
    c.Moves [x] (c.next (Cursor.rest_ne_nil h)).1 where
  source_eq := rfl
  rest_eq := by simp [next, past, h]
  position_eq := by simp [next, past, h]

/-- A place is known by its text and its position. -/
theorem Cursor.eq_of_position {c d : Cursor} (hsource : c.source = d.source)
    (hposition : c.position = d.position) : c = d := by
  obtain ⟨before, hbefore, hplace⟩ := c.splits
  obtain ⟨before', hbefore', hplace'⟩ := d.splits
  have hcut : (before, c.rest) = (before', d.rest) := by
    rw [← cutBytes_byteLength before, ← cutBytes_byteLength before', ← hbefore, ← hbefore',
      ← hplace, ← hplace', hsource, hposition]
  have hrest : c.rest = d.rest := (Prod.mk.inj hcut).2
  obtain ⟨_, _, _, _⟩ := c
  obtain ⟨_, _, _, _⟩ := d
  simp_all

theorem Cursor.Moves.unique {c d e : Cursor} {text : List Char} (hd : c.Moves text d)
    (he : c.Moves text e) : d = e :=
  Cursor.eq_of_position (hd.source_eq.trans he.source_eq.symm)
    (hd.position_eq.trans he.position_eq.symm)

/-- A move over two texts stops between them. -/
theorem Cursor.Moves.split {c e : Cursor} {xs ys : List Char} (h : c.Moves (xs ++ ys) e) :
    ∃ d, c.Moves xs d ∧ d.Moves ys e := by
  have hrest : xs ++ (ys ++ e.rest) = c.rest := by rw [h.rest_eq, List.append_assoc]
  refine ⟨c.past xs (ys ++ e.rest) hrest, c.moves_past hrest, h.source_eq, rfl, ?_⟩
  rw [h.position_eq, byteLength_append, ← Nat.add_assoc]
  rfl

theorem Cursor.source_eq_of_le {c d : Cursor} : c ≤ d → d.source = c.source := by
  rintro ⟨text, h⟩
  exact h.source_eq

theorem Cursor.source_eq_of_lt {c d : Cursor} (h : c < d) : d.source = c.source :=
  Cursor.source_eq_of_le (Cursor.le_of_lt h)

theorem Cursor.rest_ne_nil_of_lt {c d : Cursor} : c < d → c.rest ≠ [] := by
  rintro ⟨text, hne, hmoves⟩
  simp [hmoves.rest_eq, hne]

/-! ### Leaves -/

/-- What a rule found, or what the next rule makes of the place if the first found nothing. -/
def orElse {α β : Type} (reading : Option α × Session σ) (f : α → β)
    (next : Session σ → Option β × Session σ) : Option β × Session σ :=
  match reading with
  | (some a, s) => (some (f a), s)
  | (none, s) => next s

theorem readExpression_none {c : Cursor} {s t : Session σ} (h : readExpression c s = (none, t)) :
    Expression.scan c = none ∧ t = s := by
  unfold readExpression at h
  split at h
  · exact ⟨‹_›, (Prod.mk.inj h).2.symm⟩
  · simp at h

theorem readExpression_some {c : Cursor} {s t : Session σ} {e : Expression} {d : c.After}
    (h : readExpression c s = (some (e, d), t)) :
    ∃ scanned, Expression.scan c = some (scanned, d) ∧
      s.finishExpression scanned = (e, t) := by
  unfold readExpression at h
  split at h
  · simp at h
  · rename_i scanned after hscan
    simp only [Prod.mk.injEq, Option.some.injEq] at h
    obtain ⟨⟨he, hd⟩, ht⟩ := h
    exact ⟨scanned, hd ▸ hscan, Prod.ext he ht⟩

theorem readScalar_none {c : Cursor} {s t : Session σ} (h : readScalar c s = (none, t)) :
    t = s := by
  unfold readScalar at h
  split at h
  · exact (Prod.mk.inj h).2.symm
  · simp at h

theorem readScalar_some {c : Cursor} {s t : Session σ} {scalar : Scalar} {d : c.After}
    (h : readScalar c s = (some (scalar, d), t)) :
    Scalar.scan c = some (scalar, d) ∧ t = s.observe (.value (.scalar scalar)) := by
  unfold readScalar at h
  split at h
  · simp at h
  · simp only [Prod.mk.injEq, Option.some.injEq] at h
    obtain ⟨⟨rfl, rfl⟩, rfl⟩ := h
    exact ⟨‹_›, rfl⟩

theorem readIdentifier_none {c : Cursor} {s t : Session σ} (h : readIdentifier c s = (none, t)) :
    t = s := by
  unfold readIdentifier at h
  split at h
  · exact (Prod.mk.inj h).2.symm
  · simp at h

theorem readIdentifier_some {c : Cursor} {s t : Session σ} {identifier : Identifier} {d : c.After}
    (h : readIdentifier c s = (some (identifier, d), t)) :
    Identifier.scan c = some (identifier, d) ∧ t = s.observe (.identifier identifier) := by
  unfold readIdentifier at h
  split at h
  · simp at h
  · simp only [Prod.mk.injEq, Option.some.injEq] at h
    obtain ⟨⟨rfl, rfl⟩, rfl⟩ := h
    exact ⟨‹_›, rfl⟩

/-! ### Strings and keys -/

theorem readText_eq_none {c : Cursor} (hquote : c.quote? = none) (s : Session σ) :
    readText c s = (none, s) := by
  unfold readText
  split
  · rfl
  · simp_all

/-- A quoted string is read by its content unless it is a closed literal without a brace. -/
theorem readText_of_quote {c : Cursor} {quote : Quote} (hquote : c.quote? = some quote)
    (s : Session σ) :
    readText c s =
      (let inner := c.next (Cursor.ne_nil_of_quote? hquote)
       let content := readTextContent quote c inner s
       let byContent : Reading σ Text c :=
         (some (content.1, ⟨content.2.1.1, Cursor.lt_of_lt_of_le inner.2 content.2.1.2⟩),
           content.2.2)
       match c.matchQuoted with
       | .ok (some (raw, d)) =>
         if raw.contains '{' then byContent
         else
           let content := staticContent c d raw
           let text := finishText quote c d content (s.observe (.segment content.first))
           (some (text.1, d), text.2)
       | _ => byContent) := by
  unfold readText
  split
  · simp_all
  · rename_i other hother
    obtain rfl : quote = other := Option.some.inj (hquote.symm.trans hother)
    rfl

/-- What reading a quoted string comes to: one segment, content that was searched for expressions,
or nothing. -/
inductive TextRead (c : Cursor) (s : Session σ) : Reading σ Text c → Prop
  | static {quote : Quote} {raw : List Char} {d : c.After} {text : Text} {t : Session σ}
      (hquote : c.quote? = some quote) (hraw : c.matchQuoted = .ok (some (raw, d)))
      (hbrace : raw.contains '{' = false)
      (hfinish : finishText quote c d (staticContent c d raw)
        (s.observe (.segment (staticContent c d raw).first)) = (text, t)) :
      TextRead c s (some (text, d), t)
  | content {quote : Quote} {inner : Cursor} {content : Content} {d : inner.From} {text : Text}
      {u t : Session σ} (hquote : c.quote? = some quote) (hinner : c.Moves [quote.char] inner)
      (hcontent : readContent (some quote) inner inner s = (content, d, u))
      (hfinish : finishText quote c d content u = (text, t)) (hd : c < d.1) :
      TextRead c s (some (text, ⟨d.1, hd⟩), t)
  | none (hquote : c.quote? = none) : TextRead c s (none, s)

theorem Cursor.moves_next_of_quote? {c : Cursor} {quote : Quote} (h : c.quote? = some quote) :
    c.Moves [quote.char] (c.next (Cursor.ne_nil_of_quote? h)).1 := by
  cases hrest : c.rest with
  | nil => simp [quote?, hrest] at h
  | cons x rest =>
    have hx : quote.char = x := by
      simp only [quote?, hrest, List.head?_cons, Option.bind_some] at h
      exact Quote.char_of_ofChar? h
    rw [hx]
    exact Cursor.moves_next hrest

theorem readText_read (c : Cursor) (s : Session σ) : TextRead c s (readText c s) := by
  cases hquote : c.quote? with
  | none =>
    rw [readText_eq_none hquote]
    exact .none hquote
  | some quote =>
    have hmoves := Cursor.moves_next_of_quote? hquote
    rw [readText_of_quote hquote]
    rcases hraw : c.matchQuoted with error | _ | ⟨raw, d⟩
    · exact .content hquote hmoves rfl rfl _
    · exact .content hquote hmoves rfl rfl _
    · dsimp only
      split
      · exact .content hquote hmoves rfl rfl _
      · rename_i hbrace
        exact .static hquote hraw (by simpa using hbrace) rfl

theorem readText_none {c : Cursor} {s t : Session σ} (h : readText c s = (none, t)) :
    c.quote? = none ∧ t = s := by
  have hread := readText_read c s
  rw [h] at hread
  cases hread
  exact ⟨‹_›, rfl⟩

theorem readText_some_quote {c : Cursor} {s t : Session σ} {text : Text} {d : c.After}
    (h : readText c s = (some (text, d), t)) : ∃ quote, c.quote? = some quote := by
  have hread := readText_read c s
  rw [h] at hread
  cases hread with
  | static hquote => exact ⟨_, hquote⟩
  | content hquote => exact ⟨_, hquote⟩

/-- What reading a key comes to. -/
inductive KeyRead (c : Cursor) (s : Session σ) : Reading σ Key c → Prop
  | text {text : Text} {d : c.After} {t : Session σ} (h : readText c s = (some (text, d), t)) :
      KeyRead c s (some (.text text, d), t)
  | expression {e : Expression} {d : c.After} {t : Session σ} (hquote : c.quote? = none)
      (h : readExpression c s = (some (e, d), t)) : KeyRead c s (some (.expression e, d), t)
  | identifier {identifier : Identifier} {d : c.After} (hquote : c.quote? = none)
      (hscan : Expression.scan c = none) (h : Identifier.scan c = some (identifier, d)) :
      KeyRead c s (some (.identifier identifier, d), s.observe (.identifier identifier))
  | none : KeyRead c s (none, s)

theorem readKey_read (c : Cursor) (s : Session σ) : KeyRead c s (readKey c s) := by
  unfold readKey
  split
  · exact .text ‹_›
  · rename_i t htext
    obtain ⟨hquote, rfl⟩ := readText_none htext
    split
    · exact .expression hquote ‹_›
    · rename_i u hexpression
      obtain ⟨hscan, rfl⟩ := readExpression_none hexpression
      split
      · rename_i identifier d v hidentifier
        obtain ⟨h, rfl⟩ := readIdentifier_some hidentifier
        exact .identifier hquote hscan h
      · rename_i v hidentifier
        obtain rfl := readIdentifier_none hidentifier
        exact .none

theorem readKey_none {c : Cursor} {s t : Session σ} (h : readKey c s = (none, t)) : t = s := by
  have hread := readKey_read c s
  rw [h] at hread
  cases hread
  rfl

theorem readKey_eq (c : Cursor) (s : Session σ) : readKey c s =
    orElse (readText c s) (fun (text, d) => (Key.text text, d)) fun s =>
      orElse (readExpression c s) (fun (e, d) => (Key.expression e, d)) fun s =>
        orElse (readIdentifier c s) (fun (identifier, d) => (Key.identifier identifier, d)) fun s =>
          (none, s) := by
  unfold readKey orElse
  rcases readText c s with ⟨_ | found, t⟩
  · dsimp only
    rcases readExpression c t with ⟨_ | found, u⟩
    · dsimp only
      rcases readIdentifier c u with ⟨_ | found, v⟩ <;> rfl
    · rfl
  · rfl

/-! ### Arrays -/

/-- The ways in which a round of an array can go. -/
inductive SlotRound (rule : ValueRule σ n) (c : Cursor) (hc : c.rest.length < n)
    (draft : SlotDraft) (s : Session σ) : Round σ SlotDraft c → Prop
  | ended (hend : c.rest = []) : SlotRound rule c hc draft s (.stop ⟨c, c.le_refl⟩ draft false s)
  | closed {d : Cursor} (hd : c.Moves [']'] d) (hle : c ≤ d) :
      SlotRound rule c hc draft s (.stop ⟨d, hle⟩ draft true s)
  | comma {d : c.After} (hd : c.Moves [','] d.1) :
      SlotRound rule c hc draft s (.again d (draft.comma c.position) s)
  | comment {d : c.After} (hd : c.comment? = some d) :
      SlotRound rule c hc draft s (.again d draft (s.observeComment c d))
  | value {value : Value} {d : c.After} {t : Session σ} (hcomment : c.comment? = none)
      (hopen : draft.awaitsValue = true) (hvalue : rule c hc s = (some (value, d), t)) :
      SlotRound rule c hc draft s (.again d (draft.fill value) t)
  | halt (hnone : draft.awaitsValue = true → rule c hc s = (none, s))
      (hhalt : (s.commit draft.missing c.position).halted = true) :
      SlotRound rule c hc draft s
        (.stop ⟨c, c.le_refl⟩ draft false (s.commit draft.missing c.position))
  | recover {d : c.After} (hnone : draft.awaitsValue = true → rule c hc s = (none, s))
      (hgo : (s.commit draft.missing c.position).halted = false)
      (hd : ∃ x rest hrest hx, d = recoverSlot c x rest hrest hx) :
      SlotRound rule c hc draft s (.again d draft (s.commit draft.missing c.position))

/-- A rule that finds nothing leaves the session as it was. -/
def ValueRule.Quiet (rule : ValueRule σ n) : Prop :=
  ∀ ⦃c : Cursor⦄ ⦃hc : c.rest.length < n⦄ ⦃s t : Session σ⦄, rule c hc s = (none, t) → t = s

theorem slotStep_nil (rule : ValueRule σ n) {c : Cursor} (hrest : c.rest = [])
    (hc : c.rest.length < n) (draft : SlotDraft) (s : Session σ) :
    slotStep rule c hc draft s = .stop ⟨c, c.le_refl⟩ draft false s := by
  unfold slotStep
  split
  · rfl
  · simp_all

/-- A round of an array goes by the character that it begins at. -/
theorem slotStep_cons (rule : ValueRule σ n) {c : Cursor} {x : Char} {rest : List Char}
    (hrest : c.rest = x :: rest) (hc : c.rest.length < n) (draft : SlotDraft) (s : Session σ) :
    slotStep rule c hc draft s =
      (let next := c.next (Cursor.rest_ne_nil hrest)
       if hclose : x = ']' then .stop ⟨next.1, Cursor.le_of_lt next.2⟩ draft true s
       else if hcomma : x = ',' then .again next (draft.comma c.position) s
       else
         match c.comment? with
         | some d => .again d draft (s.observeComment c d)
         | none =>
           let (found, s) := if draft.awaitsValue then rule c hc s else (none, s)
           match found with
           | some (value, d) => .again d (draft.fill value) s
           | none =>
             let s := s.commit draft.missing c.position
             if s.halted then .stop ⟨c, c.le_refl⟩ draft false s
             else .again
               (recoverSlot c x rest hrest (by simp [slotDelimiters, hclose, hcomma])) draft s) := by
  unfold slotStep
  split
  · simp_all
  · rename_i y tail htail
    obtain ⟨rfl, rfl⟩ := List.cons.inj (hrest.symm.trans htail)
    rfl

theorem slotStep_round {rule : ValueRule σ n} (hquiet : rule.Quiet) (c : Cursor)
    (hc : c.rest.length < n) (draft : SlotDraft) (s : Session σ) :
    SlotRound rule c hc draft s (slotStep rule c hc draft s) := by
  unfold slotStep
  split
  · exact .ended ‹_›
  · rename_i x rest hrest
    have hnext := Cursor.moves_next hrest
    dsimp only
    split
    · subst x
      exact .closed hnext _
    · split
      · subst x
        exact .comma hnext
      · split
        · exact .comment ‹_›
        · by_cases hopen : draft.awaitsValue = true
          · rw [if_pos hopen]
            cases hvalue : rule c hc s with
            | mk found t =>
              cases found with
              | some found => exact .value ‹_› hopen hvalue
              | none =>
                obtain rfl := hquiet hvalue
                dsimp only
                split
                · exact .halt (fun _ => hvalue) ‹_›
                · exact .recover (fun _ => hvalue) (eq_false_of_ne_true ‹_›)
                    ⟨x, rest, hrest, _, rfl⟩
          · rw [if_neg hopen]
            dsimp only
            split
            · exact .halt (fun h => absurd h hopen) ‹_›
            · exact .recover (fun h => absurd h hopen) (eq_false_of_ne_true ‹_›)
                ⟨x, rest, hrest, _, rfl⟩

/-! ### Objects -/

/-- An object goes on at a colon only where it does not wait for one. -/
theorem PropertyDraft.delimiters_of_colon {draft : PropertyDraft} {c : Cursor}
    {landing : Landing c} (hland : nextDelimiter? draft.delimiters c = some landing)
    (hdelimiter : landing.delimiter = ':') : draft.delimiters = [',', ':', '}'] := by
  have hmem := nextDelimiter?_delimiter_mem hland
  rw [hdelimiter] at hmem
  unfold PropertyDraft.delimiters at hmem ⊢
  split at hmem
  · simp at hmem
  · rw [if_neg ‹_›]

/-- A key that can be read at `c` does not end in front of the colon. -/
def KeyPasses (c colon : Cursor) (s : Session σ) : Prop :=
  ∀ key d, (readKey c s).1 = some (key, d) → colon.position < d.1.position

/-- The ways in which a round of an object can go on after a problem at `c`. -/
inductive PropertyRecovery (c : Cursor) (draft : PropertyDraft) (s : Session σ) :
    Round σ PropertyDraft c → Prop
  | lost {d : c.After} (hland : nextDelimiter? draft.delimiters c = none) (hd : d.1 = c.toEnd) :
      PropertyRecovery c draft s (.again d draft s)
  | closed {landing : Landing c} (hland : nextDelimiter? draft.delimiters c = some landing)
      (hdelimiter : landing.delimiter = '}') (hle : c ≤ landing.after) :
      PropertyRecovery c draft s (.stop ⟨landing.after, hle⟩ draft true s)
  | comma {landing : Landing c} (hland : nextDelimiter? draft.delimiters c = some landing)
      (hdelimiter : landing.delimiter = ',') (hlt : c < landing.after) :
      PropertyRecovery c draft s
        (.again ⟨landing.after, hlt⟩ (draft.comma landing.here.position) s)
  | key {landing : Landing c} {key : Key} {d : c.After} {t : Session σ}
      (hland : nextDelimiter? draft.delimiters c = some landing)
      (hdelimiter : landing.delimiter = ':') (hlt : c < landing.after)
      (hkey : readKey c s = (some (key, d), t)) (hd : d.1.position ≤ landing.here.position) :
      PropertyRecovery c draft s (.again ⟨landing.after, hlt⟩
        ((draft.begin key t).1.colon landing.here.position) (draft.begin key t).2)
  | detach {landing : Landing c} {tried : Session σ}
      (hland : nextDelimiter? draft.delimiters c = some landing)
      (hdelimiter : landing.delimiter = ':') (hlt : c < landing.after)
      (htried : tried = (readKey c s).2) (hpasses : KeyPasses c landing.here s) :
      PropertyRecovery c draft s (.again ⟨landing.after, hlt⟩
        ((draft.flush (tried.rollback s.checkpoint)).1.colon landing.here.position)
        (draft.flush (tried.rollback s.checkpoint)).2)

/-- The ways in which a round of an object can go. -/
inductive PropertyRound (rule : ValueRule σ n) (c : Cursor) (hc : c.rest.length < n)
    (draft : PropertyDraft) (s : Session σ) : Round σ PropertyDraft c → Prop
  | ended (hend : c.rest = []) :
      PropertyRound rule c hc draft s (.stop ⟨c, c.le_refl⟩ draft false s)
  | comment {d : c.After} (hd : c.comment? = some d) :
      PropertyRound rule c hc draft s (.again d draft (s.observeComment c d))
  | closed {d : Cursor} (hd : c.Moves ['}'] d) (hle : c ≤ d)
      (hawaited : draft.awaited = .keyOrEnd ∨ draft.awaited = .commaOrEnd) :
      PropertyRound rule c hc draft s (.stop ⟨d, hle⟩ draft true s)
  | key {key : Key} {d : c.After} {t : Session σ} (hawaited : draft.awaited = .keyOrEnd)
      (hkey : readKey c s = (some (key, d), t)) :
      PropertyRound rule c hc draft s (.again d (draft.begin key t).1 (draft.begin key t).2)
  | colon {d : c.After} (hawaited : draft.awaited = .colon) (hd : c.Moves [':'] d.1) :
      PropertyRound rule c hc draft s (.again d (draft.colon c.position) s)
  | value {value : Value} {d : c.After} {t : Session σ} (hcomment : c.comment? = none)
      (hawaited : draft.awaited = .value) (hvalue : rule c hc s = (some (value, d), t)) :
      PropertyRound rule c hc draft s (.again d (draft.fill value) t)
  | comma {d : c.After} (hawaited : draft.awaited = .commaOrEnd) (hd : c.Moves [','] d.1) :
      PropertyRound rule c hc draft s (.again d (draft.comma c.position) s)
  | halt (hnone : draft.awaited = .value → rule c hc s = (none, s))
      (hhalt : (s.commit draft.awaited.missing c.position).halted = true) :
      PropertyRound rule c hc draft s
        (.stop ⟨c, c.le_refl⟩ draft false (s.commit draft.awaited.missing c.position))
  | recover {round : Round σ PropertyDraft c}
      (hnone : draft.awaited = .value → rule c hc s = (none, s))
      (hgo : (s.commit draft.awaited.missing c.position).halted = false)
      (hround : PropertyRecovery c draft (s.commit draft.awaited.missing c.position) round) :
      PropertyRound rule c hc draft s round

theorem recoverProperty_recovery (c : Cursor) (hc : c.rest ≠ []) (draft : PropertyDraft)
    (s : Session σ) : PropertyRecovery c draft s (recoverProperty c hc draft s) := by
  unfold recoverProperty
  split
  · exact .lost ‹_› rfl
  · rename_i landing hland
    have hmem := nextDelimiter?_delimiter_mem hland
    dsimp only
    split
    · exact .closed hland ‹_› _
    · split
      · exact .comma hland ‹_› _
      · have hdelimiter : landing.delimiter = ':' := by
          unfold PropertyDraft.delimiters at hmem
          split at hmem <;> simp_all
        unfold beginBeforeColon
        split
        · rename_i key d tried hkey
          split
          · exact .key hland hdelimiter _ hkey ‹_›
          · rename_i hbehind
            refine .detach hland hdelimiter _ (by simp [hkey]) ?_
            simpa [KeyPasses, hkey] using hbehind
        · rename_i tried hkey
          exact .detach hland hdelimiter _ (by simp [hkey]) (by simp [KeyPasses, hkey])

/-- A token that an object does not wait for leaves the session as it was. -/
theorem acceptToken_error {rule : ValueRule σ n} (hquiet : rule.Quiet) {c : Cursor}
    {hc : c.rest.length < n} {hne : c.rest ≠ []} {draft : PropertyDraft} {s t : Session σ}
    (h : acceptToken rule c hc hne draft s = .error t) :
    t = s ∧ (draft.awaited = .value → rule c hc s = (none, s)) := by
  unfold acceptToken at h
  dsimp only at h
  split at h
  · rename_i hawaited
    split at h
    · simp at h
    · split at h
      · rename_i hkey
        exact ⟨(Except.error.inj h).symm.trans (readKey_none hkey), by simp [hawaited]⟩
      · simp at h
  · rename_i hawaited
    split at h
    · simp at h
    · exact ⟨(Except.error.inj h).symm, by simp [hawaited]⟩
  · split at h
    · rename_i hvalue
      obtain rfl := hquiet hvalue
      exact ⟨(Except.error.inj h).symm, fun _ => hvalue⟩
    · simp at h
  · rename_i hawaited
    split at h
    · simp at h
    · split at h
      · simp at h
      · exact ⟨(Except.error.inj h).symm, by simp [hawaited]⟩

/-- What an object makes of a token that it waits for. -/
inductive TokenRound (rule : ValueRule σ n) (c : Cursor) (hc : c.rest.length < n)
    (draft : PropertyDraft) (s : Session σ) : Round σ PropertyDraft c → Prop
  | closed {d : Cursor} (hd : c.Moves ['}'] d) (hle : c ≤ d)
      (hawaited : draft.awaited = .keyOrEnd ∨ draft.awaited = .commaOrEnd) :
      TokenRound rule c hc draft s (.stop ⟨d, hle⟩ draft true s)
  | key {key : Key} {d : c.After} {t : Session σ} (hawaited : draft.awaited = .keyOrEnd)
      (hkey : readKey c s = (some (key, d), t)) :
      TokenRound rule c hc draft s (.again d (draft.begin key t).1 (draft.begin key t).2)
  | colon {d : c.After} (hawaited : draft.awaited = .colon) (hd : c.Moves [':'] d.1) :
      TokenRound rule c hc draft s (.again d (draft.colon c.position) s)
  | value {value : Value} {d : c.After} {t : Session σ} (hawaited : draft.awaited = .value)
      (hvalue : rule c hc s = (some (value, d), t)) :
      TokenRound rule c hc draft s (.again d (draft.fill value) t)
  | comma {d : c.After} (hawaited : draft.awaited = .commaOrEnd) (hd : c.Moves [','] d.1) :
      TokenRound rule c hc draft s (.again d (draft.comma c.position) s)

theorem acceptToken_token {rule : ValueRule σ n} {c : Cursor} {hc : c.rest.length < n}
    {hne : c.rest ≠ []} {draft : PropertyDraft} {s : Session σ} {round : Round σ PropertyDraft c}
    (h : acceptToken rule c hc hne draft s = .ok round) : TokenRound rule c hc draft s round := by
  obtain ⟨x, rest, hrest⟩ := List.exists_cons_of_ne_nil hne
  have hhead : c.rest.head hne = x := by simp [hrest]
  have hnext := Cursor.moves_next hrest
  unfold acceptToken at h
  dsimp only at h
  rw [hhead] at h
  clear hhead
  split at h
  · split at h
    · subst x
      obtain rfl := Except.ok.inj h
      exact .closed hnext _ (.inl ‹_›)
    · split at h
      · simp at h
      · obtain rfl := Except.ok.inj h
        exact .key ‹_› ‹_›
  · split at h
    · subst x
      obtain rfl := Except.ok.inj h
      exact .colon ‹_› hnext
    · simp at h
  · split at h
    · simp at h
    · obtain rfl := Except.ok.inj h
      exact .value ‹_› ‹_›
  · split at h
    · subst x
      obtain rfl := Except.ok.inj h
      exact .closed hnext _ (.inr ‹_›)
    · split at h
      · subst x
        obtain rfl := Except.ok.inj h
        exact .comma ‹_› hnext
      · simp at h

theorem acceptToken_round {rule : ValueRule σ n} {c : Cursor} {hc : c.rest.length < n}
    {hne : c.rest ≠ []} {draft : PropertyDraft} {s : Session σ} {round : Round σ PropertyDraft c}
    (hcomment : c.comment? = none) (h : acceptToken rule c hc hne draft s = .ok round) :
    PropertyRound rule c hc draft s round := by
  cases acceptToken_token h with
  | closed hd hle hawaited => exact .closed hd hle hawaited
  | key hawaited hkey => exact .key hawaited hkey
  | colon hawaited hd => exact .colon hawaited hd
  | value hawaited hvalue => exact .value hcomment hawaited hvalue
  | comma hawaited hd => exact .comma hawaited hd

theorem propertyStep_round {rule : ValueRule σ n} (hquiet : rule.Quiet) (c : Cursor)
    (hc : c.rest.length < n) (draft : PropertyDraft) (s : Session σ) :
    PropertyRound rule c hc draft s (propertyStep rule c hc draft s) := by
  unfold propertyStep
  split
  · exact .ended ‹_›
  · split
    · exact .comment ‹_›
    · split
      · exact acceptToken_round ‹_› ‹_›
      · rename_i t htoken
        obtain ⟨rfl, hnone⟩ := acceptToken_error hquiet htoken
        dsimp only
        split
        · exact .halt hnone ‹_›
        · exact .recover hnone (eq_false_of_ne_true ‹_›) (recoverProperty_recovery c _ draft _)

/-! ### Loops -/

section Loops

variable {δ : Type}

/-- The session that a round leaves. -/
def Round.session {c : Cursor} : Round σ δ c → Session σ
  | .again _ _ s => s
  | .stop _ _ _ s => s

@[simp] theorem Round.session_again {c : Cursor} (next : c.After) (draft : δ)
    (s : Session σ) : (Round.again next draft s).session = s := rfl

@[simp] theorem Round.session_stop {c : Cursor} (last : c.From) (draft : δ)
    (closed : Bool) (s : Session σ) : (Round.stop last draft closed s).session = s := rfl

/-- Where a round leaves off, and the draft that it leaves. -/
def Round.outcome {c : Cursor} : Round σ δ c → Cursor × δ
  | .again next draft _ => (next.1, draft)
  | .stop last draft _ _ => (last.1, draft)

@[simp] theorem Round.outcome_again {c : Cursor} (next : c.After) (draft : δ)
    (s : Session σ) : (Round.again next draft s).outcome = (next.1, draft) := rfl

@[simp] theorem Round.outcome_stop {c : Cursor} (last : c.From) (draft : δ)
    (closed : Bool) (s : Session σ) :
    (Round.stop last draft closed s).outcome = (last.1, draft) := rfl

theorem Round.le_outcome {c : Cursor} (round : Round σ δ c) : c ≤ round.outcome.1 := by
  cases round with
  | again next => exact Cursor.le_of_lt next.2
  | stop last => exact last.2

theorem readSlots_eq_rounds (rule : ValueRule σ n) (c : Cursor) (hc : c.rest.length < n)
    (draft : SlotDraft) (s : Session σ) :
    readSlots rule c hc draft s = rounds (slotStep rule) c hc draft s := rfl

theorem readProperties_eq_rounds (rule : ValueRule σ n) (c : Cursor) (hc : c.rest.length < n)
    (draft : PropertyDraft) (s : Session σ) :
    readProperties rule c hc draft s = rounds (propertyStep rule) c hc draft s := rfl

section Equations

variable {step : RoundStep σ δ n} {c : Cursor} {hc : c.rest.length < n} {draft draft' : δ}
  {s t : Session σ}

theorem rounds_of_stop {hn : c.skipBlanks.rest.length < n} {last : c.skipBlanks.From}
    {closed : Bool} (hgo : s.halted = false)
    (hstep : step c.skipBlanks hn draft s = .stop last draft' closed t) :
    rounds step c hc draft s =
      (⟨last.1, Cursor.le_trans c.le_skipBlanks last.2⟩, draft', closed, t) := by
  rw [rounds, if_neg (by simp [hgo])]
  simp only [hstep]

theorem rounds_of_again {hn : c.skipBlanks.rest.length < n} {next : c.skipBlanks.After}
    (hnext : next.1.rest.length < n) (hgo : s.halted = false)
    (hstep : step c.skipBlanks hn draft s = .again next draft' t) :
    rounds step c hc draft s =
      (⟨(rounds step next.1 hnext draft' t).1.1,
        Cursor.le_trans (Cursor.le_of_lt (Cursor.lt_of_le_of_lt c.le_skipBlanks next.2))
          (rounds step next.1 hnext draft' t).1.2⟩,
        (rounds step next.1 hnext draft' t).2) := by
  rw [rounds, if_neg (by simp [hgo])]
  simp only [hstep]

end Equations

/-- What white space and every step preserve holds at the end of all rounds. -/
theorem rounds_invariant (step : RoundStep σ δ n) (holds : Cursor → δ → Session σ → Prop)
    (hblank : ∀ ⦃c draft s⦄, holds c draft s → holds c.skipBlanks draft s)
    (hstep : ∀ ⦃c⦄ (hc : c.rest.length < n) ⦃draft s⦄, holds c draft s →
      holds (step c hc draft s).outcome.1 (step c hc draft s).outcome.2
        (step c hc draft s).session)
    {c : Cursor} (hc : c.rest.length < n) (draft : δ) (s : Session σ) (h : holds c draft s) :
    holds (rounds step c hc draft s).1.1 (rounds step c hc draft s).2.1
      (rounds step c hc draft s).2.2.2 := by
  fun_induction rounds step c hc draft s with
  | case1 => exact h
  | case2 c hc draft s hgo hle hn last draft' closed t hround =>
    have hnext := hstep hn (hblank h)
    rwa [hround] at hnext
  | case3 c hc draft s hgo hle hn next draft' t hround hlt hn' last result hrest ih =>
    have hnext := hstep hn (hblank h)
    rw [hround] at hnext
    have hlast := ih hnext
    rwa [hrest] at hlast

/-- Rounds that end at a closing bracket end with a step that stops there, from a place and a draft
for which holds what white space and every earlier step preserve. -/
theorem rounds_closed (step : RoundStep σ δ n) (holds : Cursor → δ → Session σ → Prop)
    (hblank : ∀ ⦃c draft s⦄, holds c draft s → holds c.skipBlanks draft s)
    (hstep : ∀ ⦃c⦄ (hc : c.rest.length < n) ⦃draft s⦄ ⦃next : c.After⦄ ⦃draft' t⦄,
      holds c draft s → step c hc draft s = .again next draft' t → holds next.1 draft' t)
    {c : Cursor} (hc : c.rest.length < n) (draft : δ) (s : Session σ) (h : holds c draft s)
    (hclosed : (rounds step c hc draft s).2.2.1 = true) :
    ∃ (d : Cursor) (hd : d.rest.length < n) (draft' : δ) (t : Session σ) (last : d.From),
      holds d draft' t ∧
      step d hd draft' t = .stop last (rounds step c hc draft s).2.1 true
        (rounds step c hc draft s).2.2.2 ∧
      last.1 = (rounds step c hc draft s).1.1 := by
  fun_induction rounds step c hc draft s with
  | case1 => simp at hclosed
  | case2 c hc draft s hgo hle hn last draft' closed t hround =>
    obtain rfl : closed = true := hclosed
    exact ⟨c.skipBlanks, hn, draft, s, last, hblank h, hround, rfl⟩
  | case3 c hc draft s hgo hle hn next draft' t hround hlt hn' last result hrest ih =>
    rw [hrest] at ih
    exact ih (hstep hn (hblank h) hround) hclosed

end Loops

/-! ### Values -/

/-- What reading a value comes to. -/
inductive ValueRead (c : Cursor) (s : Session σ) : Reading σ Value c → Prop
  | text {text : Text} {d : c.After} {t : Session σ} (h : readText c s = (some (text, d), t)) :
      ValueRead c s (some (.text text, d), t)
  | expression {e : Expression} {d : c.After} {t : Session σ} (hquote : c.quote? = none)
      (h : readExpression c s = (some (e, d), t)) : ValueRead c s (some (.expression e, d), t)
  | array {inner : Cursor} {hlt : inner.rest.length < c.rest.length} {d : inner.From}
      {draft : SlotDraft} {closed : Bool} {t : Session σ} {value : Value}
      (hinner : c.Moves ['['] inner)
      (hslots : readSlots (fun d _ s => readValue d s) inner hlt {} s = (d, draft, closed, t))
      (hvalue : value = .array ⟨c.position, d.1.position⟩ draft.finish) (hd : c < d.1) :
      ValueRead c s (some (value, ⟨d.1, hd⟩),
        (t.commitUnclosed closed .unclosedArray d.1.position).observe (.value value))
  | object {inner : Cursor} {hlt : inner.rest.length < c.rest.length} {d : inner.From}
      {draft : PropertyDraft} {closed : Bool} {t u : Session σ} {value : Value}
      (hinner : c.Moves ['{'] inner) (hbrace : inner.rest.head? ≠ some '{')
      (hproperties : readProperties (fun d _ s => readValue d s) inner hlt {} s =
        (d, draft, closed, t))
      (hu : u = t.commitUnclosed closed draft.awaited.missing d.1.position)
      (hvalue : value =
        .object ⟨c.position, d.1.position⟩ (draft.flush u).1.finished.toList) (hd : c < d.1) :
      ValueRead c s (some (value, ⟨d.1, hd⟩), (draft.flush u).2.observe (.value value))
  | scalar {scalar : Scalar} {d : c.After} (hbracket : c.rest.head? ≠ some '[')
      (hbrace : ∀ rest, c.rest = '{' :: rest → rest.head? = some '{')
      (h : Scalar.scan c = some (scalar, d)) :
      ValueRead c s (some (.scalar scalar, d), s.observe (.value (.scalar scalar)))
  | none (hbracket : c.rest.head? ≠ some '[')
      (hbrace : ∀ rest, c.rest = '{' :: rest → rest.head? = some '{') : ValueRead c s (none, s)

/-- Behind an opening bracket stand the slots of an array. -/
theorem readArray_of_bracket {c : Cursor} {rest : List Char} (hrest : c.rest = '[' :: rest)
    (rule : ValueRule σ c.rest.length) (s : Session σ) :
    readArray c rule s =
      (let inner := c.next (Cursor.rest_ne_nil hrest)
       let (d, draft, closed, s) :=
         readSlots rule inner.1 (Cursor.length_lt_of_lt inner.2) {} s
       let s := s.commitUnclosed closed .unclosedArray d.1.position
       let value := Value.array ⟨c.position, d.1.position⟩ draft.finish
       (some (value, ⟨d.1, Cursor.lt_of_lt_of_le inner.2 d.2⟩), s.observe (.value value))) := by
  unfold readArray
  split
  · rfl
  · rename_i hother
    exact absurd hrest (hother rest)

theorem readArray_of_other {c : Cursor} (hother : ∀ rest, c.rest ≠ '[' :: rest)
    (rule : ValueRule σ c.rest.length) (s : Session σ) : readArray c rule s = (none, s) := by
  unfold readArray
  split
  · exact absurd ‹_› (hother _)
  · rfl

/-- Behind a single opening brace stand the properties of an object. -/
theorem readObject_of_brace {c : Cursor} {rest : List Char} (hrest : c.rest = '{' :: rest)
    (hbrace : rest.head? ≠ some '{') (rule : ValueRule σ c.rest.length) (s : Session σ) :
    readObject c rule s =
      (let inner := c.next (Cursor.rest_ne_nil hrest)
       let (d, draft, closed, s) :=
         readProperties rule inner.1 (Cursor.length_lt_of_lt inner.2) {} s
       let s := s.commitUnclosed closed draft.awaited.missing d.1.position
       let (draft, s) := draft.flush s
       let value := Value.object ⟨c.position, d.1.position⟩ draft.finished.toList
       (some (value, ⟨d.1, Cursor.lt_of_lt_of_le inner.2 d.2⟩), s.observe (.value value))) := by
  unfold readObject
  split
  · rename_i tail htail
    obtain ⟨-, rfl⟩ := List.cons.inj (hrest.symm.trans htail)
    rw [if_neg hbrace]
  · rename_i hother
    exact absurd hrest (hother rest)

theorem readObject_of_other {c : Cursor}
    (hother : ∀ rest, c.rest = '{' :: rest → rest.head? = some '{')
    (rule : ValueRule σ c.rest.length) (s : Session σ) : readObject c rule s = (none, s) := by
  unfold readObject
  split
  · rw [if_pos (hother _ ‹_›)]
  · rfl

theorem readArray_read {c : Cursor} {s : Session σ} :
    (∃ found t, readArray c (fun d _ s => readValue d s) s = (some found, t) ∧
      ValueRead c s (some found, t)) ∨
    (c.rest.head? ≠ some '[' ∧ readArray c (fun d _ s => readValue d s) s = (none, s)) := by
  by_cases hbracket : c.rest.head? = some '['
  · obtain ⟨rest, hrest⟩ := List.head?_eq_some_iff.mp hbracket
    rw [readArray_of_bracket hrest]
    exact .inl ⟨_, _, rfl, .array (Cursor.moves_next hrest) rfl rfl _⟩
  · refine .inr ⟨hbracket, readArray_of_other (fun rest hrest => ?_) _ s⟩
    exact hbracket (by simp [hrest])

theorem readObject_read {c : Cursor} {s : Session σ} :
    (∃ found t, readObject c (fun d _ s => readValue d s) s = (some found, t) ∧
      ValueRead c s (some found, t)) ∨
    ((∀ rest, c.rest = '{' :: rest → rest.head? = some '{') ∧
      readObject c (fun d _ s => readValue d s) s = (none, s)) := by
  by_cases hother : ∀ rest, c.rest = '{' :: rest → rest.head? = some '{'
  · exact .inr ⟨hother, readObject_of_other hother _ s⟩
  · simp only [Classical.not_forall] at hother
    obtain ⟨rest, hrest, hbrace⟩ := hother
    have hmoves := Cursor.moves_next hrest
    have hinner : (c.next (Cursor.rest_ne_nil hrest)).1.rest = rest := by
      simpa [hrest] using hmoves.rest_eq.symm
    rw [readObject_of_brace hrest hbrace]
    exact .inl ⟨_, _, rfl, .object hmoves (by rwa [hinner]) rfl rfl rfl _⟩

theorem readValue_read (c : Cursor) (s : Session σ) : ValueRead c s (readValue c s) := by
  rw [readValue]
  split
  · exact .text ‹_›
  · rename_i t htext
    obtain ⟨hquote, rfl⟩ := readText_none htext
    split
    · exact .expression hquote ‹_›
    · rename_i u hexpression
      obtain ⟨hscan, rfl⟩ := readExpression_none hexpression
      rcases readArray_read (c := c) (s := u) with ⟨found, v, harray, hread⟩ | ⟨hbracket, harray⟩
      · rw [harray]
        exact hread
      · rw [harray]
        dsimp only
        rcases readObject_read (c := c) (s := u) with
          ⟨found, v, hobject, hread⟩ | ⟨hbrace, hobject⟩
        · rw [hobject]
          exact hread
        · rw [hobject]
          dsimp only
          split
          · rename_i scalar d v hscalar
            obtain ⟨h, rfl⟩ := readScalar_some hscalar
            exact .scalar hbracket hbrace h
          · rename_i v hscalar
            obtain rfl := readScalar_none hscalar
            exact .none hbracket hbrace

theorem readValue_eq (c : Cursor) (s : Session σ) : readValue c s =
    orElse (readText c s) (fun (text, d) => (Value.text text, d)) fun s =>
      orElse (readExpression c s) (fun (e, d) => (Value.expression e, d)) fun s =>
        orElse (readArray c (fun d _ s => readValue d s) s) id fun s =>
          orElse (readObject c (fun d _ s => readValue d s) s) id fun s =>
            orElse (readScalar c s) (fun (scalar, d) => (Value.scalar scalar, d)) fun s =>
              (none, s) := by
  rw [readValue]
  unfold orElse
  rcases readText c s with ⟨_ | found, t⟩
  · dsimp only
    rcases readExpression c t with ⟨_ | found, u⟩
    · dsimp only
      rcases readArray c (fun d _ s => readValue d s) u with ⟨_ | found, v⟩
      · dsimp only
        rcases readObject c (fun d _ s => readValue d s) v with ⟨_ | found, w⟩
        · dsimp only
          rcases readScalar c w with ⟨_ | found, x⟩ <;> rfl
        · rfl
      · rfl
    · rfl
  · rfl

theorem readValue_none {c : Cursor} {s t : Session σ} (h : readValue c s = (none, t)) : t = s := by
  have hread := readValue_read c s
  rw [h] at hread
  cases hread
  rfl

theorem readValue_quiet : ValueRule.Quiet (σ := σ) (n := n) fun c _ s => readValue c s :=
  fun _ _ _ _ h => readValue_none h

end DataTemplate
