/-
What a value is read as does not depend on the text around it.  A value that is read without a problem
is read round by round, each round taking one token; in a longer text every round takes the same token,
moved along.  Main statements: `SlotRun.embeds`, `PropertyRun.embeds` and `readValue_embeds`.
-/
import DataTemplate.Proofs.Embedding

namespace DataTemplate

variable {σ τ : Type} {n m k : Nat} {tail : List Char}

/-! ### Where rounds start -/

theorem head?_any_isBlank_skipBlanks (c : Cursor) :
    c.skipBlanks.rest.head?.any isBlank = false := by
  have hhead := List.head?_dropWhile_not isBlank c.rest
  have hrest : c.skipBlanks.rest = c.rest.dropWhile isBlank := rfl
  rw [hrest]
  cases hfirst : (c.rest.dropWhile isBlank).head? with
  | none => rfl
  | some x =>
    rw [hfirst] at hhead
    exact hhead

/-- The place behind the blanks stands for the place in front of them. -/
theorem leadsTo_skipBlanks {δ : Type} {step : RoundStep σ δ n} {c : Cursor} {draft : δ}
    {s : Session σ} (hgo : s.halted = false) : LeadsTo step c draft s c.skipBlanks draft s :=
  leadsTo_of_skipBlanks hgo c.le_skipBlanks
    (Cursor.skipBlanks_eq (head?_any_isBlank_skipBlanks c)).symm

/-- A token may end in front of the blanks before a delimiter or a comment. -/
theorem tokenMayEnd_of_skipBlanks {c : Cursor} {x : Char} {rest : List Char}
    (h : c.skipBlanks.rest = x :: rest) (hx : x ∈ breakChars) (tail : List Char) :
    tokenMayEnd (c.rest ++ tail) = true := by
  have hmoves : c.Moves (c.runOf isBlank) c.skipBlanks := c.moves_matchWhile isBlank
  rw [hmoves.rest_eq, h]
  cases hrun : c.runOf isBlank with
  | nil => exact tokenMayEnd_cons hx
  | cons y run =>
    have hall := forall_mem_takeWhile isBlank c.rest
    rw [show c.rest.takeWhile isBlank = y :: run from hrun] at hall
    exact tokenMayEnd_cons (mem_breakChars_of_isBlank (hall y List.mem_cons_self))

/-! ### Rounds without problems -/

/-- The rounds of an array that meets no problem, from a place up to its closing bracket. -/
inductive SlotRun :
    Cursor → SlotDraft → Session σ → Cursor → SlotDraft → Session σ → Prop
  | closed {c d : Cursor} {draft : SlotDraft} {s : Session σ} (hd : c.skipBlanks.Moves [']'] d) :
      SlotRun c draft s d draft s
  | comma {c d e : Cursor} {draft last : SlotDraft} {s t : Session σ}
      (hd : c.skipBlanks.Moves [','] d)
      (more : SlotRun d (draft.comma c.skipBlanks.position) s e last t) :
      SlotRun c draft s e last t
  | comment {c e : Cursor} {d : c.skipBlanks.After} {draft last : SlotDraft} {s t : Session σ}
      (hd : c.skipBlanks.comment? = some d)
      (more : SlotRun d.1 draft (s.observeComment c.skipBlanks d) e last t) :
      SlotRun c draft s e last t
  | value {c e : Cursor} {value : Value} {d : c.skipBlanks.After} {draft last : SlotDraft}
      {s t u : Session σ} (hopen : draft.awaitsValue = true)
      (hvalue : readValue c.skipBlanks s = (some (value, d), u))
      (more : SlotRun d.1 (draft.fill value) u e last t) : SlotRun c draft s e last t

/-- The rounds of an object that meets no problem, from a place up to its closing brace. -/
inductive PropertyRun :
    Cursor → PropertyDraft → Session σ → Cursor → PropertyDraft → Session σ → Prop
  | closed {c d : Cursor} {draft : PropertyDraft} {s : Session σ}
      (hawaited : draft.awaited = .keyOrEnd ∨ draft.awaited = .commaOrEnd)
      (hd : c.skipBlanks.Moves ['}'] d) : PropertyRun c draft s d draft s
  | comment {c e : Cursor} {d : c.skipBlanks.After} {draft last : PropertyDraft} {s t : Session σ}
      (hd : c.skipBlanks.comment? = some d)
      (more : PropertyRun d.1 draft (s.observeComment c.skipBlanks d) e last t) :
      PropertyRun c draft s e last t
  | key {c e : Cursor} {key : Key} {d : c.skipBlanks.After} {draft last : PropertyDraft}
      {s t u : Session σ} (hawaited : draft.awaited = .keyOrEnd)
      (hkey : readKey c.skipBlanks s = (some (key, d), u))
      (more : PropertyRun d.1 (draft.begin key u).1 (draft.begin key u).2 e last t) :
      PropertyRun c draft s e last t
  | colon {c d e : Cursor} {draft last : PropertyDraft} {s t : Session σ}
      (hawaited : draft.awaited = .colon) (hd : c.skipBlanks.Moves [':'] d)
      (more : PropertyRun d (draft.colon c.skipBlanks.position) s e last t) :
      PropertyRun c draft s e last t
  | value {c e : Cursor} {value : Value} {d : c.skipBlanks.After} {draft last : PropertyDraft}
      {s t u : Session σ} (hawaited : draft.awaited = .value)
      (hvalue : readValue c.skipBlanks s = (some (value, d), u))
      (more : PropertyRun d.1 (draft.fill value) u e last t) : PropertyRun c draft s e last t
  | comma {c d e : Cursor} {draft last : PropertyDraft} {s t : Session σ}
      (hawaited : draft.awaited = .commaOrEnd) (hd : c.skipBlanks.Moves [','] d)
      (more : PropertyRun d (draft.comma c.skipBlanks.position) s e last t) :
      PropertyRun c draft s e last t

section Runs

variable {c d : Cursor} {s t : Session σ}

theorem SlotRun.grows {draft last : SlotDraft} (h : SlotRun c draft s d last t) : s.Grows t := by
  induction h with
  | closed => exact .refl _
  | comma _ _ ih => exact ih
  | comment _ _ ih => exact (Session.Grows.observe _ _).trans ih
  | value _ hvalue _ ih => exact (readValue_grows hvalue).trans ih

theorem PropertyRun.grows {draft last : PropertyDraft} (h : PropertyRun c draft s d last t) :
    s.Grows t := by
  induction h with
  | closed => exact .refl _
  | comment _ _ ih => exact (Session.Grows.observe _ _).trans ih
  | @key c _ key d draft _ s _ u _ hkey _ ih =>
    exact (Session.Grows.law.key hkey).trans
      ((Session.Grows.law.begin c draft key u).trans ih)
  | colon _ _ _ ih | comma _ _ _ ih => exact ih
  | value _ hvalue _ ih => exact (readValue_grows hvalue).trans ih

/-- An array that is closed and meets no problem is read by such rounds. -/
theorem slotRun_of_rounds (hc : c.rest.length < n) (draft : SlotDraft)
    (hclosed : (rounds (slotStep valueRule) c hc draft s).2.2.1 = true)
    (hend : (rounds (slotStep valueRule) c hc draft s).2.2.2.Unbroken) :
    SlotRun c draft s (rounds (slotStep valueRule) c hc draft s).1.1
      (rounds (slotStep valueRule) c hc draft s).2.1
      (rounds (slotStep valueRule) c hc draft s).2.2.2 := by
  fun_induction rounds (slotStep valueRule) c hc draft s with
  | case1 => simp at hclosed
  | case2 c hc draft s hgo hle hn last draft' closed t hround =>
    have hcases := slotStep_round readValue_quiet c.skipBlanks hn draft s
    rw [hround] at hcases
    obtain rfl : closed = true := hclosed
    cases hcases with
    | closed hd => exact .closed hd
  | case3 c hc draft s hgo hle hn next draft' t hround hlt hn' last result hrest ih =>
    have hcases := slotStep_round readValue_quiet c.skipBlanks hn draft s
    rw [hround] at hcases
    rw [hrest] at ih
    have hmore := ih hclosed hend
    cases hcases with
    | comma hd => exact .comma hd hmore
    | comment hd => exact .comment hd hmore
    | value _ hopen hvalue => exact .value hopen hvalue hmore
    | recover => exact absurd (hend.of_grows hmore.grows) (Session.Unbroken.not_commit _ _ _)

/-- An object that is closed and meets no problem is read by such rounds. -/
theorem propertyRun_of_rounds (hc : c.rest.length < n) (draft : PropertyDraft)
    (hclosed : (rounds (propertyStep valueRule) c hc draft s).2.2.1 = true)
    (hend : (rounds (propertyStep valueRule) c hc draft s).2.2.2.Unbroken) :
    PropertyRun c draft s (rounds (propertyStep valueRule) c hc draft s).1.1
      (rounds (propertyStep valueRule) c hc draft s).2.1
      (rounds (propertyStep valueRule) c hc draft s).2.2.2 := by
  fun_induction rounds (propertyStep valueRule) c hc draft s with
  | case1 => simp at hclosed
  | case2 c hc draft s hgo hle hn last draft' closed t hround =>
    have hcases := propertyStep_round readValue_quiet c.skipBlanks hn draft s
    rw [hround] at hcases
    obtain rfl : closed = true := hclosed
    cases hcases with
    | closed hd _ hawaited => exact .closed hawaited hd
    | recover hnone hgo hround =>
      have hgrows := Session.Grows.law.recovery (Session.commit_recovering hgo) hround
      exact absurd (hend.of_grows hgrows) (Session.Unbroken.not_commit _ _ _)
  | case3 c hc draft s hgo hle hn next draft' t hround hlt hn' last result hrest ih =>
    have hcases := propertyStep_round readValue_quiet c.skipBlanks hn draft s
    rw [hround] at hcases
    rw [hrest] at ih
    have hmore := ih hclosed hend
    cases hcases with
    | comment hd => exact .comment hd hmore
    | key hawaited hkey => exact .key hawaited hkey hmore
    | colon hawaited hd => exact .colon hawaited hd hmore
    | value _ hawaited hvalue => exact .value hawaited hvalue hmore
    | comma hawaited hd => exact .comma hawaited hd hmore
    | recover hnone hgo hround =>
      have hgrows := (Session.Grows.law.recovery (Session.commit_recovering hgo) hround).trans
        hmore.grows
      exact absurd (hend.of_grows hgrows) (Session.Unbroken.not_commit _ _ _)

end Runs

/-! ### Rounds in a longer text -/

/-- Reading in rounds from `c` ends at a closing bracket, at `e`. -/
def EndsAt {δ : Type} (step : RoundStep σ δ n) (c : Cursor) (draft : δ) (s : Session σ) (e : Cursor)
    (last : δ) (t : Session σ) : Prop :=
  ∀ hc : c.rest.length < n, roundsEnd step c hc draft s = (e, last, true, t)

theorem LeadsTo.endsAt {δ : Type} {step : RoundStep σ δ n} {c d e : Cursor} {draft draft' last : δ}
    {s t u : Session σ} (h : LeadsTo step c draft s d draft' t)
    (hend : EndsAt step d draft' t e last u) : EndsAt step c draft s e last u := by
  intro hc
  obtain ⟨hd, hsame⟩ := h hc
  rw [hsame, hend hd]

/-- A comment that ends in front of more text is the same comment in a longer text. -/
theorem Cursor.Embeds.comment? {c c' : Cursor} (h : c.Embeds k tail c') {d : c.After}
    (hd : c.comment? = some d) (hne : d.1.rest ≠ []) :
    ∃ d', c'.comment? = some d' ∧ d.1.Embeds k tail d'.1 := by
  have hslash := Cursor.head?_of_comment? hd
  rcases Cursor.comment?_filler hd with ⟨filler, hmoves⟩ | hend
  · have hrest : c'.rest = filler.text ++ (d.1.rest ++ tail) := by
      rw [h.rest_eq, hmoves.rest_eq, List.append_assoc]
    rcases filler.taken hrest with ⟨x, after, hx, hmoves', -⟩ | ⟨-, d', hd', hrest'⟩
    · have hhead := h.head?_eq (rest_ne_nil_of_lt d.2)
      rw [hslash, hmoves'.rest_eq] at hhead
      obtain rfl : x = '/' := by simpa using hhead
      exact absurd hx (by decide)
    · exact ⟨d', hd', h.of_rest (le_of_lt d.2) (le_of_lt d'.2) hrest'⟩
  · exact absurd hend hne

section Embedded

variable {δ : Type} {step : RoundStep τ δ m} {c d c' : Cursor} {draft draft' : δ} {s s' t' : Session τ}
  {x : Char}

/-- A round that takes a delimiter leads to the place behind it. -/
theorem leadsTo_token (hgo : s'.halted = false) (hd : c.skipBlanks.Moves [x] d)
    (hc : c.Embeds k tail c')
    (hstep : ∀ (hrest : c'.skipBlanks.rest = x :: (d.rest ++ tail)) hn,
      step c'.skipBlanks hn draft s' =
        .again (c'.skipBlanks.next (Cursor.rest_ne_nil hrest)) draft' t') :
    ∃ d', LeadsTo step c' draft s' d' draft' t' ∧ d.Embeds k tail d' := by
  have hskip := hc.skipBlanks (by simp [hd.rest_eq])
  have hrest := hskip.rest_cons hd.rest_eq
  have hround := leadsTo_of_again hgo (head?_any_isBlank_skipBlanks c') (hstep hrest)
  exact ⟨_, (leadsTo_skipBlanks hgo).trans hround, hskip.of_moves hd (Cursor.moves_next hrest)⟩

/-- A round that meets the closing bracket ends the reading behind it. -/
theorem endsAt_token (hgo : s'.halted = false) (hd : c.skipBlanks.Moves [x] d)
    (hc : c.Embeds k tail c')
    (hstep : ∀ (hrest : c'.skipBlanks.rest = x :: (d.rest ++ tail)) hn,
      step c'.skipBlanks hn draft s' =
        .stop ⟨(c'.skipBlanks.next (Cursor.rest_ne_nil hrest)).1,
          Cursor.le_of_lt (c'.skipBlanks.next (Cursor.rest_ne_nil hrest)).2⟩ draft true s') :
    ∃ d', EndsAt step c' draft s' d' draft s' ∧ d.Embeds k tail d' := by
  have hskip := hc.skipBlanks (by simp [hd.rest_eq])
  have hrest := hskip.rest_cons hd.rest_eq
  have hend : EndsAt step c'.skipBlanks draft s' _ draft s' :=
    roundsEnd_of_stop hgo (head?_any_isBlank_skipBlanks c') (hstep hrest)
  exact ⟨_, (leadsTo_skipBlanks hgo).endsAt hend, hskip.of_moves hd (Cursor.moves_next hrest)⟩

/-- A round that takes a comment leads to the place behind it. -/
theorem leadsTo_comment (hpasses : step.PassesComments) (draft : δ) (hs' : s'.Neutral)
    {e : c.skipBlanks.After} (he : c.skipBlanks.comment? = some e) (hne : e.1.rest ≠ [])
    (hc : c.Embeds k tail c') :
    ∃ e' t', LeadsTo step c' draft s' e' draft t' ∧ e.1.Embeds k tail e' ∧ s'.Quiet t' := by
  have hskip := hc.skipBlanks (Cursor.rest_ne_nil_of_lt e.2)
  obtain ⟨e', he', hembeds⟩ := hskip.comment? he hne
  have hround := leadsTo_of_again hs'.going (head?_any_isBlank_skipBlanks c')
    fun hn => hpasses hn draft s' he'
  exact ⟨e', _, (leadsTo_skipBlanks hs'.going).trans hround, hembeds, .observe s' _⟩

end Embedded

/-! ### Values in a longer text -/

/-- Whatever settled value is read at `c` without a problem is read in a longer text, moved along. -/
def Cursor.ValueEmbeds (σ τ : Type) (k : Nat) (tail : List Char) (c : Cursor) : Prop :=
  ∀ ⦃c' : Cursor⦄ ⦃s : Session σ⦄ ⦃s' : Session τ⦄ ⦃value : Value⦄ ⦃d : c.After⦄ ⦃t : Session σ⦄,
    s.Plain → s'.Neutral → c.Embeds k tail c' → readValue c s = (some (value, d), t) → t.Unbroken →
    value.settled = true → tokenMayEnd (d.1.rest ++ tail) = true →
    Finds k tail s' (readValue c' s') (value.shift k) d.1

/-- The same of `c` and of every place behind it. -/
def Cursor.ValuesEmbed (σ τ : Type) (k : Nat) (tail : List Char) (c : Cursor) : Prop :=
  ∀ d : Cursor, d.rest.length ≤ c.rest.length → d.ValueEmbeds σ τ k tail

theorem Cursor.ValuesEmbed.here {c : Cursor} (h : c.ValuesEmbed σ τ k tail) :
    c.skipBlanks.ValueEmbeds σ τ k tail := h _ (length_le_of_le c.le_skipBlanks)

theorem Cursor.ValuesEmbed.behind {c d : Cursor} (h : c.ValuesEmbed σ τ k tail)
    (hd : c.skipBlanks ≤ d) : d.ValuesEmbed σ τ k tail :=
  fun e he => h e (Nat.le_trans he (length_le_of_le (le_trans c.le_skipBlanks hd)))

/-- A value starts with no blank, no comment and no delimiter. -/
theorem readValue_head {c : Cursor} {s t : Session σ} {value : Value} {d : c.After}
    (h : readValue c s = (some (value, d), t)) : ∃ x rest, c.rest = x :: rest ∧ x ∉ breakChars := by
  have hread := readValue_read c s
  rw [h] at hread
  cases hread with
  | text h =>
    obtain ⟨quote, hquote⟩ := readText_some_quote h
    have hx : quote.char ∉ breakChars := by cases quote <;> decide
    exact ⟨_, _, (Cursor.moves_next_of_quote? hquote).rest_eq, hx⟩
  | expression _ h =>
    obtain ⟨e, hscan, -⟩ := readExpression_some h
    obtain ⟨rest, hrest⟩ := Expression.scan_head hscan
    exact ⟨'{', _, hrest, by decide⟩
  | array hinner => exact ⟨'[', _, hinner.rest_eq, by decide⟩
  | object hinner => exact ⟨'{', _, hinner.rest_eq, by decide⟩
  | scalar _ _ hscan =>
    obtain ⟨x, rest, hrest, hx⟩ := Scalar.scan_head hscan
    rw [List.mem_append, not_or] at hx
    exact ⟨x, rest, hrest, hx.2⟩

/-- A key starts with no blank, no comment and no delimiter. -/
theorem readKey_head {c : Cursor} {s t : Session σ} {key : Key} {d : c.After}
    (h : readKey c s = (some (key, d), t)) : ∃ x rest, c.rest = x :: rest ∧ x ∉ breakChars := by
  have hread := readKey_read c s
  rw [h] at hread
  cases hread with
  | text h =>
    obtain ⟨quote, hquote⟩ := readText_some_quote h
    have hx : quote.char ∉ breakChars := by cases quote <;> decide
    exact ⟨_, _, (Cursor.moves_next_of_quote? hquote).rest_eq, hx⟩
  | expression _ h =>
    obtain ⟨e, hscan, -⟩ := readExpression_some h
    obtain ⟨rest, hrest⟩ := Expression.scan_head hscan
    exact ⟨'{', _, hrest, by decide⟩
  | identifier _ _ hscan =>
    obtain ⟨x, rest, hrest, hx⟩ := Identifier.scan_head hscan
    refine ⟨x, rest, hrest, fun hmem => ?_⟩
    have hcontinue := isIdentifierContinue_of_start hx
    simp [not_isIdentifierContinue_of_mem hmem] at hcontinue

/-! ### Arrays in a longer text -/

section Slots

variable {c e : Cursor} {draft last : SlotDraft} {s t : Session σ}

theorem SlotRun.rest_ne_nil (h : SlotRun c draft s e last t) : c.rest ≠ [] := by
  have hskip : c.skipBlanks.rest ≠ [] := by
    cases h with
    | closed hd | comma hd => simp [hd.rest_eq]
    | @comment _ _ d | @value _ _ _ d => exact Cursor.rest_ne_nil_of_lt d.2
  intro hnil
  exact hskip (by simp [Cursor.skipBlanks, Cursor.matchWhile, Cursor.past, hnil])

/-- The values of an array only grow. -/
theorem SlotRun.values_subset (h : SlotRun c draft s e last t) :
    slotValues draft.slots ⊆ slotValues last.slots := by
  induction h with
  | closed => exact List.Subset.refl _
  | comma _ _ ih => rwa [SlotDraft.values_comma] at ih
  | comment _ _ ih => exact ih
  | value hopen _ _ ih =>
    rw [SlotDraft.values_fill hopen] at ih
    exact List.Subset.trans (List.subset_append_left _ _) ih

/-- Behind the value of a slot a token may end. -/
theorem SlotRun.tokenMayEnd (h : SlotRun c draft s e last t) (hfull : draft.awaitsValue = false)
    (tail : List Char) : tokenMayEnd (c.rest ++ tail) = true := by
  cases h with
  | closed hd | comma hd => exact tokenMayEnd_of_skipBlanks hd.rest_eq (by decide) tail
  | comment hd =>
    obtain ⟨rest, hrest⟩ := List.head?_eq_some_iff.mp (Cursor.head?_of_comment? hd)
    exact tokenMayEnd_of_skipBlanks hrest (by decide) tail
  | value hopen => simp [hfull] at hopen

theorem SlotDraft.awaitsValue_fill (draft : SlotDraft) (value : Value) :
    (draft.fill value).awaitsValue = false := rfl

/-- The rounds of an array are taken in a longer text as well. -/
theorem SlotRun.embeds (h : SlotRun c draft s e last t) (hs : s.Plain) (ht : t.Unbroken)
    (hsettled : ∀ v ∈ slotValues last.slots, v.settled = true)
    (hvalues : c.ValuesEmbed σ τ k tail) {c' : Cursor} {s' : Session τ} (hs' : s'.Neutral)
    (hc : c.Embeds k tail c') :
    ∃ e' t', EndsAt (n := m) (slotStep valueRule) c' (draft.shift k) s' e' (last.shift k) t' ∧
      e.Embeds k tail e' ∧ s'.Quiet t' := by
  induction h generalizing c' s' with
  | @closed c d draft s hd =>
    obtain ⟨d', hend, hd'⟩ := endsAt_token hs'.going hd hc fun hrest hn =>
      slotStep_close (valueRule (n := m)) hrest hn (draft.shift k)
    exact ⟨d', s', hend, hd', .refl s'⟩
  | @comma c d e draft last s t hd more ih =>
    have hskip := hc.skipBlanks (by simp [hd.rest_eq])
    obtain ⟨d', hleads, hd'⟩ := leadsTo_token hs'.going hd hc fun hrest hn =>
      slotStep_comma (valueRule (n := m)) hrest hn (draft.shift k)
    obtain ⟨e', t', hend, he, hquiet⟩ := ih hs ht hsettled (hvalues.behind hd.le) hs' hd'
    rw [hskip.position_eq, SlotDraft.comma_shift] at hleads
    exact ⟨e', t', hleads.endsAt hend, he, hquiet⟩
  | @comment c e d draft last s t hd more ih =>
    obtain ⟨d', u', hleads, hd', hquiet⟩ :=
      leadsTo_comment (slotStep_passesComments (valueRule (n := m))) (draft.shift k) hs' hd
        more.rest_ne_nil hc
    obtain ⟨e', t', hend, he, hquiet'⟩ := ih (hs.observe _) ht hsettled
      (hvalues.behind (Cursor.le_of_lt d.2)) (hquiet.neutral hs') hd'
    exact ⟨e', t', hleads.endsAt hend, he, hquiet.trans hquiet'⟩
  | @value c e value d draft last s t u hopen hvalue more ih =>
    have hu := ht.of_grows more.grows
    have hmem : value ∈ slotValues last.slots := more.values_subset (by
      rw [SlotDraft.values_fill hopen]
      exact List.mem_append_right _ (List.mem_singleton.mpr rfl))
    have hskip := hc.skipBlanks (Cursor.rest_ne_nil_of_lt d.2)
    obtain ⟨d', u', hvalue', hd', hquiet⟩ :=
      hvalues.here hs hs' hskip hvalue hu
        (hsettled value hmem) (more.tokenMayEnd (draft.awaitsValue_fill value) tail)
    obtain ⟨x, rest, hrest, hx⟩ := readValue_head hvalue
    have hround := leadsTo_of_again hs'.going (head?_any_isBlank_skipBlanks c') fun hn =>
      slotStep_value (valueRule (n := m)) (hskip.rest_cons hrest) hx hn
        ((draft.awaitsValue_shift (k := k)).trans hopen) hvalue'
    obtain ⟨e', t', hend, he, hquiet'⟩ := ih (hs.of_grows (readValue_grows hvalue) hu) ht hsettled
      (hvalues.behind (Cursor.le_of_lt d.2)) (hquiet.neutral hs') hd'
    rw [SlotDraft.fill_shift] at hround
    exact ⟨e', t', ((leadsTo_skipBlanks hs'.going).trans hround).endsAt hend, he,
      hquiet.trans hquiet'⟩

end Slots

/-! ### Objects in a longer text -/

/-- Every property of the first list is in the second, with the same key and no value lost. -/
def KeptIn (properties others : List (Property Value)) : Prop :=
  ∀ p ∈ properties, ∃ q ∈ others, q.key = p.key ∧ ∀ v, p.value = some v → q.value = some v

theorem KeptIn.refl (properties : List (Property Value)) : KeptIn properties properties :=
  fun p hp => ⟨p, hp, rfl, fun _ h => h⟩

theorem KeptIn.trans {first second third : List (Property Value)} (h : KeptIn first second)
    (k : KeptIn second third) : KeptIn first third := by
  intro p hp
  obtain ⟨q, hq, hkey, hvalue⟩ := h p hp
  obtain ⟨r, hr, hkey', hvalue'⟩ := k q hq
  exact ⟨r, hr, hkey'.trans hkey, fun v hv => hvalue' v (hvalue v hv)⟩

namespace PropertyDraft

variable {draft : PropertyDraft}

theorem kept_modify {f : Property Value → Property Value}
    (hf : ∀ p, draft.current = some p →
      (f p).key = p.key ∧ ∀ v, p.value = some v → (f p).value = some v) :
    KeptIn draft.properties (draft.modify f).properties := by
  intro p hp
  rcases List.mem_append.mp hp with hp | hp
  · exact ⟨p, List.mem_append_left _ hp, rfl, fun _ h => h⟩
  · have hcurrent : draft.current = some p := by simpa using hp
    exact ⟨f p, by simp [properties, modify, hcurrent], hf p hcurrent⟩

theorem kept_begin (draft : PropertyDraft) (key : Key) (s : Session σ) :
    KeptIn draft.properties (draft.begin key s).1.properties := by
  intro p hp
  rw [properties_begin]
  exact ⟨p, List.mem_append_left _ hp, rfl, fun _ h => h⟩

theorem kept_colon (draft : PropertyDraft) (position : Nat) :
    KeptIn draft.properties (draft.colon position).properties :=
  kept_modify fun _ _ => ⟨rfl, fun _ h => h⟩

theorem kept_comma (draft : PropertyDraft) (position : Nat) :
    KeptIn draft.properties (draft.comma position).properties :=
  kept_modify fun _ _ => ⟨rfl, fun _ h => h⟩

theorem kept_fill (hlacks : draft.Lacks) (hawaited : draft.awaited = .value) (value : Value) :
    KeptIn draft.properties (draft.fill value).properties := by
  refine kept_modify fun p hp => ⟨rfl, fun v hv => ?_⟩
  simp [(hlacks.of_value hawaited p hp).1] at hv

/-- A property is being built unless a key or the end is awaited. -/
def Attached (draft : PropertyDraft) : Prop := draft.awaited ≠ .keyOrEnd → draft.current ≠ none

theorem attached_modify {f : Property Value → Property Value} {awaited : Awaited}
    (h : draft.Attached) (hawaited : draft.awaited ≠ .keyOrEnd) :
    Attached { draft.modify f with awaited := awaited } := by
  intro _ hnone
  exact h hawaited (Option.map_eq_none_iff.mp hnone)

end PropertyDraft

section Properties

variable {c e : Cursor} {draft last : PropertyDraft} {s t : Session σ}

theorem PropertyRun.rest_ne_nil (h : PropertyRun c draft s e last t) : c.rest ≠ [] := by
  have hskip : c.skipBlanks.rest ≠ [] := by
    cases h with
    | closed _ hd | colon _ hd | comma _ hd => simp [hd.rest_eq]
    | @comment _ _ d | @key _ _ _ d | @value _ _ _ d => exact Cursor.rest_ne_nil_of_lt d.2
  intro hnil
  exact hskip (by simp [Cursor.skipBlanks, Cursor.matchWhile, Cursor.past, hnil])

/-- The properties of an object only grow. -/
theorem PropertyRun.kept (h : PropertyRun c draft s e last t) (hlacks : draft.Lacks) :
    KeptIn draft.properties last.properties := by
  induction h with
  | closed => exact .refl _
  | comment _ _ ih => exact ih hlacks
  | @key _ _ key _ draft _ _ _ u _ _ _ ih =>
    exact (draft.kept_begin key u).trans (ih (PropertyDraft.lacks_begin draft key u))
  | colon hawaited _ _ ih =>
    exact (PropertyDraft.kept_colon _ _).trans
      (ih (PropertyDraft.lacks_colon _ (hlacks.of_colon hawaited)))
  | value hawaited _ _ ih =>
    exact (PropertyDraft.kept_fill hlacks hawaited _).trans
      (ih (PropertyDraft.lacks_fill _ (hlacks.of_value hawaited)))
  | comma _ _ _ ih =>
    exact (PropertyDraft.kept_comma _ _).trans (ih (PropertyDraft.lacks_comma _ _))

/-- A key that begins a property is settled if the properties are settled in the end. -/
theorem PropertyRun.settled_key {key : Key} {u : Session σ}
    (h : PropertyRun c (draft.begin key u).1 s e last t)
    (hsettled : ∀ p ∈ last.properties, p.settled) : key.settled = true := by
  obtain ⟨q, hq, hkey, -⟩ := h.kept (PropertyDraft.lacks_begin draft key u) ⟨key, none, none, none⟩
    (by simp [PropertyDraft.properties_begin])
  have hkept := (hsettled q hq).1
  rwa [hkey] at hkept

/-- A value that fills a property is settled if the properties are settled in the end. -/
theorem PropertyRun.settled_value {value : Value} (h : PropertyRun c (draft.fill value) s e last t)
    (hlacks : (draft.fill value).Lacks) (hcurrent : draft.current ≠ none)
    (hsettled : ∀ p ∈ last.properties, p.settled) : value.settled = true := by
  obtain ⟨p, hp⟩ := Option.ne_none_iff_exists'.mp hcurrent
  obtain ⟨q, hq, -, hvalue⟩ := h.kept hlacks { p with value := some value } (by
    simp [PropertyDraft.properties, PropertyDraft.fill, PropertyDraft.modify, hp])
  exact (hsettled q hq).2 value (hvalue value rfl)

/-- Behind the key or the value of a property a token may end. -/
theorem PropertyRun.tokenMayEnd (h : PropertyRun c draft s e last t)
    (hawaited : draft.awaited = .colon ∨ draft.awaited = .commaOrEnd) (tail : List Char) :
    tokenMayEnd (c.rest ++ tail) = true := by
  cases h with
  | closed _ hd | colon _ hd | comma _ hd =>
    exact tokenMayEnd_of_skipBlanks hd.rest_eq (by decide) tail
  | comment hd =>
    obtain ⟨rest, hrest⟩ := List.head?_eq_some_iff.mp (Cursor.head?_of_comment? hd)
    exact tokenMayEnd_of_skipBlanks hrest (by decide) tail
  | key hother | value hother => simp [hother] at hawaited

/-- The rounds of an object are taken in a longer text as well. -/
theorem PropertyRun.embeds (h : PropertyRun c draft s e last t) (hs : s.Plain) (ht : t.Unbroken)
    (hlacks : draft.Lacks) (hattached : draft.Attached)
    (hsettled : ∀ p ∈ last.properties, p.settled)
    (hvalues : c.ValuesEmbed σ τ k tail) {c' : Cursor} {s' : Session τ} (hs' : s'.Neutral)
    (hc : c.Embeds k tail c') :
    ∃ e' t', EndsAt (n := m) (propertyStep valueRule) c' (draft.shift k) s' e' (last.shift k) t' ∧
      e.Embeds k tail e' ∧ s'.Quiet t' := by
  induction h generalizing c' s' with
  | @closed c d draft s hawaited hd =>
    have hshifted : (draft.shift k).awaited = .keyOrEnd ∨ (draft.shift k).awaited = .commaOrEnd :=
      hawaited
    obtain ⟨d', hend, hd'⟩ := endsAt_token hs'.going hd hc fun hrest hn =>
      propertyStep_close (valueRule (n := m)) hrest hn hshifted
    exact ⟨d', s', hend, hd', .refl s'⟩
  | @comment c e d draft last s t hd more ih =>
    obtain ⟨d', u', hleads, hd', hquiet⟩ :=
      leadsTo_comment (propertyStep_passesComments (valueRule (n := m))) (draft.shift k) hs' hd
        more.rest_ne_nil hc
    obtain ⟨e', t', hend, he, hquiet'⟩ := ih (hs.observe _) ht hlacks hattached hsettled
      (hvalues.behind (Cursor.le_of_lt d.2)) (hquiet.neutral hs') hd'
    exact ⟨e', t', hleads.endsAt hend, he, hquiet.trans hquiet'⟩
  | @key c e key d draft last s t u hawaited hkey more ih =>
    have hgrows := Session.Grows.law.begin c draft key u
    have hbegun := ht.of_grows more.grows
    have hu := hbegun.of_grows hgrows
    have hlacks' := PropertyDraft.lacks_begin draft key u
    have hskip := hc.skipBlanks (Cursor.rest_ne_nil_of_lt d.2)
    obtain ⟨d', u', hkey', hd', hquiet⟩ := readKey_embeds hs hs' hskip hkey hu
      (more.settled_key hsettled) (more.tokenMayEnd (.inl rfl) tail)
    obtain ⟨x, rest, hrest, hx⟩ := readKey_head hkey
    have hshifted : (draft.shift k).awaited = .keyOrEnd := hawaited
    have hround := leadsTo_of_again hs'.going (head?_any_isBlank_skipBlanks c') fun hn =>
      propertyStep_key (valueRule (n := m)) (hskip.rest_cons hrest) hx hn hshifted hkey'
    have hflushed : u'.Quiet ((draft.shift k).begin (key.shift k) u').2 := .flush u' _
    have hplain := (hs.of_grows (Session.Grows.law.key hkey) hu).of_grows hgrows hbegun
    obtain ⟨e', t', hend, he, hquiet'⟩ := ih hplain ht hlacks' (by intro _ hnone; cases hnone)
      hsettled (hvalues.behind (Cursor.le_of_lt d.2)) ((hquiet.trans hflushed).neutral hs') hd'
    rw [PropertyDraft.begin_shift draft key u' u] at hround
    exact ⟨e', t', ((leadsTo_skipBlanks hs'.going).trans hround).endsAt hend, he,
      (hquiet.trans hflushed).trans hquiet'⟩
  | @colon c d e draft last s t hawaited hd more ih =>
    have hskip := hc.skipBlanks (by simp [hd.rest_eq])
    have hshifted : (draft.shift k).awaited = .colon := hawaited
    obtain ⟨d', hleads, hd'⟩ := leadsTo_token hs'.going hd hc fun hrest hn =>
      propertyStep_colon (valueRule (n := m)) hrest hn hshifted
    obtain ⟨e', t', hend, he, hquiet⟩ := ih hs ht
      (PropertyDraft.lacks_colon _ (hlacks.of_colon hawaited))
      (PropertyDraft.attached_modify hattached (by simp [hawaited])) hsettled
      (hvalues.behind hd.le) hs' hd'
    rw [hskip.position_eq, PropertyDraft.colon_shift] at hleads
    exact ⟨e', t', hleads.endsAt hend, he, hquiet⟩
  | @value c e value d draft last s t u hawaited hvalue more ih =>
    have hu := ht.of_grows more.grows
    have hlacks' := PropertyDraft.lacks_fill value (hlacks.of_value hawaited)
    have hvalueSettled :=
      more.settled_value hlacks' (hattached (by simp [hawaited])) hsettled
    have hskip := hc.skipBlanks (Cursor.rest_ne_nil_of_lt d.2)
    obtain ⟨d', u', hvalue', hd', hquiet⟩ :=
      hvalues.here hs hs' hskip hvalue hu hvalueSettled (more.tokenMayEnd (.inr rfl) tail)
    obtain ⟨x, rest, hrest, hx⟩ := readValue_head hvalue
    have hshifted : (draft.shift k).awaited = .value := hawaited
    have hround := leadsTo_of_again hs'.going (head?_any_isBlank_skipBlanks c') fun hn =>
      propertyStep_value (valueRule (n := m)) (hskip.rest_cons hrest) hx hn hshifted hvalue'
    obtain ⟨e', t', hend, he, hquiet'⟩ := ih (hs.of_grows (readValue_grows hvalue) hu) ht hlacks'
      (PropertyDraft.attached_modify hattached (by simp [hawaited])) hsettled
      (hvalues.behind (Cursor.le_of_lt d.2)) (hquiet.neutral hs') hd'
    rw [PropertyDraft.fill_shift] at hround
    exact ⟨e', t', ((leadsTo_skipBlanks hs'.going).trans hround).endsAt hend, he,
      hquiet.trans hquiet'⟩
  | @comma c d e draft last s t hawaited hd more ih =>
    have hskip := hc.skipBlanks (by simp [hd.rest_eq])
    have hshifted : (draft.shift k).awaited = .commaOrEnd := hawaited
    obtain ⟨d', hleads, hd'⟩ := leadsTo_token hs'.going hd hc fun hrest hn =>
      propertyStep_comma (valueRule (n := m)) hrest hn hshifted
    obtain ⟨e', t', hend, he, hquiet⟩ := ih hs ht (PropertyDraft.lacks_comma _ _)
      (PropertyDraft.attached_modify hattached (by simp [hawaited])) hsettled
      (hvalues.behind hd.le) hs' hd'
    rw [hskip.position_eq, PropertyDraft.comma_shift] at hleads
    exact ⟨e', t', hleads.endsAt hend, he, hquiet⟩

end Properties

/-! ### Values -/

section Values

variable {c c' : Cursor} {s t : Session σ} {s' : Session τ}

/-- A value is an array where reading slots from behind a bracket ends at another. -/
theorem readValue_of_slots {rest : List Char} (hc : c.rest = '[' :: rest) {e : Cursor}
    {draft : SlotDraft}
    (hend : EndsAt (n := c.rest.length) (slotStep valueRule) (c.next (Cursor.rest_ne_nil hc)).1 {} s e
      draft t) :
    ∃ d, readValue c s = (some (.array ⟨c.position, e.position⟩ draft.finish, d),
      t.observe (.value (.array ⟨c.position, e.position⟩ draft.finish))) ∧ d.1.rest = e.rest := by
  obtain ⟨d, value, harray, rfl, hd⟩ := readArray_of_slots hc (hend _)
  rw [readValue_eq, readText_eq_none (Cursor.quote?_eq_none hc (by decide)), orElse,
    readExpression_eq_none (Expression.scan_eq_none_of_head hc (by decide)), orElse, harray]
  exact ⟨d, rfl, hd⟩

/-- A value is an object where reading properties from behind a lone brace ends at another. -/
theorem readValue_of_properties {rest : List Char} (hc : c.rest = '{' :: rest)
    (hlone : rest.head? ≠ some '{') {e : Cursor} {draft : PropertyDraft}
    (hend : EndsAt (n := c.rest.length) (propertyStep valueRule) (c.next (Cursor.rest_ne_nil hc)).1 {} s
      e draft t) :
    ∃ d, readValue c s = (some (.object ⟨c.position, e.position⟩ draft.properties, d),
      (draft.flush t).2.observe (.value (.object ⟨c.position, e.position⟩ draft.properties))) ∧
      d.1.rest = e.rest := by
  obtain ⟨d, value, hobject, rfl, hd⟩ := readObject_of_properties hc hlone (hend _)
  rw [readValue_eq, readText_eq_none (Cursor.quote?_eq_none hc (by decide)), orElse,
    readExpression_eq_none (Expression.scan_eq_none_of_lone hc hlone), orElse,
    readArray_eq_none hc (by decide), orElse, hobject]
  exact ⟨d, rfl, hd⟩

theorem readArray_embeds {inner : Cursor} {hlt : inner.rest.length < c.rest.length} {d : inner.From}
    {draft : SlotDraft} {closed : Bool} (hs : s.Plain) (hs' : s'.Neutral) (h : c.Embeds k tail c')
    (hinner : c.Moves ['['] inner)
    (hslots : readSlots (valueRule (n := c.rest.length)) inner hlt {} s = (d, draft, closed, t))
    (ht : (t.commitUnclosed closed .unclosedArray d.1.position).Unbroken)
    (hsettled : (Value.array ⟨c.position, d.1.position⟩ draft.finish).settled = true)
    (hvalues : ∀ e : Cursor, e.rest.length < c.rest.length → e.ValueEmbeds σ τ k tail) :
    Finds k tail s' (readValue c' s')
      ((Value.array ⟨c.position, d.1.position⟩ draft.finish).shift k) d.1 := by
  obtain ⟨hend, rfl⟩ := ht.of_commitUnclosed
  have hopened := readSlots_opened readValue_quiet hlt {} s fun _ => rfl
  rw [hslots] at hopened
  rw [readSlots_eq_rounds] at hslots
  have hrun := slotRun_of_rounds hlt {} (s := s) (by rw [hslots]) (by rw [hslots]; exact hend)
  rw [hslots] at hrun
  rw [Value.settled_array, SlotDraft.values_finish hopened] at hsettled
  have hhead := h.rest_cons hinner.rest_eq
  have hnext := h.of_moves hinner (Cursor.moves_next hhead)
  obtain ⟨e', t', hends, he, hquiet⟩ := hrun.embeds (m := c'.rest.length) hs hend hsettled
    (fun e he => hvalues e (Nat.lt_of_le_of_lt he hlt)) hs' hnext
  rw [SlotDraft.shift_empty] at hends
  obtain ⟨f, harray, hf⟩ := readValue_of_slots hhead hends
  have hshift : Value.array ⟨c'.position, e'.position⟩ (draft.shift k).finish =
      (Value.array ⟨c.position, d.1.position⟩ draft.finish).shift k := by
    rw [Value.shift, shiftSlots_eq, SlotDraft.finish_shift, h.position_eq, he.position_eq]
    rfl
  rw [harray, hshift]
  exact ⟨f, _, rfl, h.of_rest (Cursor.le_trans hinner.le d.2) (Cursor.le_of_lt f.2)
    (hf.trans he.rest_eq), hquiet.trans (.observe _ _)⟩

theorem readObject_embeds {inner : Cursor} {hlt : inner.rest.length < c.rest.length} {d : inner.From}
    {draft : PropertyDraft} {closed : Bool} (hs : s.Plain) (hs' : s'.Neutral)
    (h : c.Embeds k tail c') (hinner : c.Moves ['{'] inner) (hbrace : inner.rest.head? ≠ some '{')
    (hproperties : readProperties (valueRule (n := c.rest.length)) inner hlt {} s =
      (d, draft, closed, t))
    (ht : (t.commitUnclosed closed draft.awaited.missing d.1.position).Unbroken)
    (hsettled : (Value.object ⟨c.position, d.1.position⟩ draft.properties).settled = true)
    (hvalues : ∀ e : Cursor, e.rest.length < c.rest.length → e.ValueEmbeds σ τ k tail) :
    Finds k tail s' (readValue c' s')
      ((Value.object ⟨c.position, d.1.position⟩ draft.properties).shift k) d.1 := by
  obtain ⟨hend, rfl⟩ := ht.of_commitUnclosed
  rw [readProperties_eq_rounds] at hproperties
  have hrun := propertyRun_of_rounds hlt {} (s := s) (by rw [hproperties])
    (by rw [hproperties]; exact hend)
  rw [hproperties] at hrun
  rw [Value.settled_object] at hsettled
  have hhead := h.rest_cons hinner.rest_eq
  have hnext := h.of_moves hinner (Cursor.moves_next hhead)
  obtain ⟨x, rest, hrest⟩ := List.exists_cons_of_ne_nil hrun.rest_ne_nil
  have hlone : (inner.rest ++ tail).head? ≠ some '{' := by simpa [hrest] using hbrace
  obtain ⟨e', t', hends, he, hquiet⟩ := hrun.embeds (m := c'.rest.length) hs hend
    (fun p hp => by cases hp) (fun hother => absurd rfl hother) hsettled
    (fun e he => hvalues e (Nat.lt_of_le_of_lt he hlt)) hs' hnext
  rw [PropertyDraft.shift_empty] at hends
  obtain ⟨f, hobject, hf⟩ := readValue_of_properties hhead hlone hends
  have hshift : Value.object ⟨c'.position, e'.position⟩ (draft.shift k).properties =
      (Value.object ⟨c.position, d.1.position⟩ draft.properties).shift k := by
    rw [Value.shift, shiftProperties_eq, PropertyDraft.properties_shift, h.position_eq,
      he.position_eq]
    rfl
  rw [hobject, hshift]
  exact ⟨f, _, rfl, h.of_rest (Cursor.le_trans hinner.le d.2) (Cursor.le_of_lt f.2)
    (hf.trans he.rest_eq), (hquiet.trans (.flush _ _)).trans (.observe _ _)⟩

/-- A settled value that is read without a problem is read in any longer text, moved along, if a token
may end behind it there. -/
theorem readValue_embeds (c : Cursor) : c.ValueEmbeds σ τ k tail := by
  intro c' s s' value d t hs hs' h hread ht hsettled hend
  have hvalue := readValue_read c s
  rw [hread] at hvalue
  cases hvalue with
  | text hread =>
    rw [Value.settled_text] at hsettled
    obtain ⟨d', t', hread', hd, hquiet⟩ := readText_embeds hs hs' h hread ht hsettled
    rw [readValue_eq, hread', Value.shift]
    exact ⟨d', t', rfl, hd, hquiet⟩
  | expression hquote hread =>
    have hquote' := (h.quote?_eq (Cursor.rest_ne_nil_of_lt d.2)).trans hquote
    obtain ⟨d', t', hread', hd, hquiet⟩ := readExpression_embeds hs.neutral hs' h hread
    rw [readValue_eq, readText_eq_none hquote', orElse, hread', Value.shift]
    exact ⟨d', t', rfl, hd, hquiet⟩
  | array hinner hslots hvalue hd =>
    subst hvalue
    exact readArray_embeds hs hs' h hinner hslots (ht.of_grows (.observe _ _)) hsettled
      fun e _ => readValue_embeds e
  | @object inner hlt d draft closed t u _ hinner hbrace hproperties hu hvalue hd =>
    subst hu hvalue
    rw [PropertyDraft.finished_flush] at hsettled ⊢
    have hflush := Session.Grows.law.flush c draft
      (t.commitUnclosed closed draft.awaited.missing d.1.position)
    exact readObject_embeds hs hs' h hinner hbrace hproperties
      (ht.of_grows (hflush.trans (.observe _ _))) hsettled fun e _ => readValue_embeds e
  | scalar hbracket hbrace hscan =>
    rw [Value.shift]
    exact readScalar_embeds h hscan hend
termination_by c.rest.length

end Values

end DataTemplate
