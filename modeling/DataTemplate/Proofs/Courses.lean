/-
The courses of loops: the states in which a loop runs an iteration, from its start to its end.  An
array or object of a document was read by a loop of its own, which the reading of the document came
to by the loops of the arrays and objects around it.
Main statements: `propertyLoop_next`, `propertyLoop_last`, `readValue_array_course`,
`readValue_object_course` and `readDocument_reads`.
-/
import DataTemplate.Proofs.Placement
import DataTemplate.Proofs.PropertyLoop

namespace DataTemplate

variable {σ δ : Type}

/-! ### Courses -/

namespace Loop

variable {α β : Type} {loop : Loop α β} {a b next : α} {states : List α} {answer : β}

/-- From `a` the loop comes to `b` by iterations in these states. -/
inductive Goes (loop : Loop α β) (a : α) : List α → α → Prop
  | start : Goes loop a [] a
  | again {states : List α} {b next : α} (h : Goes loop a states b) (hgo : loop.exit b = none)
      (hbody : loop.body b = .again next) : Goes loop a (states ++ [b]) next

/-- From `a` the loop runs iterations in these states, and ends with the answer. -/
inductive Course (loop : Loop α β) (a : α) : List α → β → Prop
  | exit {states : List α} {b : α} {answer : β} (h : Goes loop a states b)
      (hexit : loop.exit b = some answer) : Course loop a states answer
  | leave {states : List α} {b : α} {answer : β} (h : Goes loop a states b)
      (hgo : loop.exit b = none) (hbody : loop.body b = .leave answer) :
      Course loop a (states ++ [b]) answer

/-- An iteration in front. -/
theorem Goes.cons (h : loop.Goes next states b) (hgo : loop.exit a = none)
    (hbody : loop.body a = .again next) : loop.Goes a (a :: states) b := by
  induction h with
  | start => exact .again .start hgo hbody
  | again _ hgo' hbody' ih => exact .again ih hgo' hbody'

/-- A loop that ends has a course. -/
theorem Runs.course {k : Nat} (h : loop.Runs a k answer) :
    ∃ states, loop.Course a states answer := by
  induction h with
  | exit hexit => exact ⟨[], .exit .start hexit⟩
  | leave hgo hbody => exact ⟨_, .leave .start hgo hbody⟩
  | again hgo hbody _ ih =>
    obtain ⟨states, hcourse⟩ := ih
    cases hcourse with
    | exit h hexit => exact ⟨_, .exit (h.cons hgo hbody) hexit⟩
    | leave h hgo' hbody' => exact ⟨_, .leave (h.cons hgo hbody) hgo' hbody'⟩

/-- What every iteration keeps up holds where the loop comes to. -/
theorem Goes.invariant {holds : α → Prop} (h : loop.Goes a states b)
    (hstep : ∀ b next, holds b → loop.exit b = none → loop.body b = .again next → holds next)
    (ha : holds a) : holds b := by
  induction h with
  | start => exact ha
  | again _ hgo hbody ih => exact hstep _ _ ih hgo hbody

/-- A loop came by way of every state in which it ran an iteration. -/
theorem Goes.split (h : loop.Goes a states b) {c : α} (hc : c ∈ states) :
    ∃ before next after, loop.Goes a before c ∧ loop.body c = .again next ∧
      loop.Goes next after b ∧ states = before ++ c :: after := by
  induction h with
  | start => simp at hc
  | @again states b next h hgo hbody ih =>
    rcases List.mem_append.mp hc with hc | hc
    · obtain ⟨before, following, after, hbefore, hnext, hafter, rfl⟩ := ih hc
      exact ⟨before, following, after ++ [b], hbefore, hnext, .again hafter hgo hbody, by simp⟩
    · obtain rfl := List.mem_singleton.mp hc
      exact ⟨states, next, [], h, hbody, .start, rfl⟩

end Loop

/-! ### Iterations of an array -/

/-- An iteration of an array is one of its rounds. -/
theorem slotLoop_pass (a : LoopState σ SlotDraft) :
    ∃ round, SlotRound (fun c _ s => readValue c s) a.place.skipBlanks (Nat.lt_succ_self _) a.draft
      a.session round ∧ (slotLoop readValue).body a = round.pass :=
  ⟨_, slotStep_round readValue_quiet _ _ a.draft a.session, rfl⟩

theorem Round.session_of_again {c : Cursor} {round : Round σ δ c} {next : LoopState σ δ}
    (h : round.pass = .again next) : next.session = round.session := by
  cases round with
  | again => exact congrArg LoopState.session (Pass.again.inj h).symm
  | stop => simp [pass] at h

theorem Round.eq_of_leave {c : Cursor} {round : Round σ δ c} {e : LoopEnd σ δ}
    (h : round.pass = .leave e) :
    round.outcome = (e.1, e.2.1) ∧ round.session = e.2.2.2 := by
  cases round with
  | again => simp [pass] at h
  | stop =>
    obtain rfl := Pass.leave.inj h
    exact ⟨rfl, rfl⟩

theorem slotLoop_grows {a next : LoopState σ SlotDraft}
    (h : (slotLoop readValue).body a = .again next) : a.session.Grows next.session := by
  obtain ⟨round, hround, hbody⟩ := slotLoop_pass a
  rw [Round.session_of_again (hbody.symm.trans h)]
  exact hround.grows

/-! ### Iterations of an object -/

/-- Where an object goes on after a problem at `c`: at the end of the text, in front of a comma or
the closing brace, in front of a colon behind what is then the key, or in front of a colon that
belongs to no property. -/
inductive ResyncRead (c : Cursor) (draft : PropertyDraft) (s : Session σ) :
    LoopState σ PropertyDraft → Prop
  | lost (hland : nextDelimiter? draft.delimiters c = none) :
      ResyncRead c draft s ⟨c.toEnd, draft, s⟩
  | mark {landing : Landing c} (hland : nextDelimiter? draft.delimiters c = some landing)
      (hdelimiter : landing.delimiter = ',' ∨ landing.delimiter = '\x7d') :
      ResyncRead c draft s ⟨landing.here, { draft with awaited := .commaOrEnd }, s⟩
  | key {landing : Landing c} {key : Key} {d : c.After} {t : Session σ}
      (hland : nextDelimiter? draft.delimiters c = some landing)
      (hdelimiter : landing.delimiter = ':') (hkey : readKey c s = (some (key, d), t))
      (hd : d.1.position ≤ landing.here.position) :
      ResyncRead c draft s ⟨landing.here, (draft.begin key t).1, (draft.begin key t).2⟩
  | detach {landing : Landing c} {tried : Session σ}
      (hland : nextDelimiter? draft.delimiters c = some landing)
      (hdelimiter : landing.delimiter = ':') (htried : tried = (readKey c s).2) :
      ResyncRead c draft s ⟨landing.here,
        { (draft.flush (tried.rollback s.checkpoint)).1 with awaited := .colon },
        (draft.flush (tried.rollback s.checkpoint)).2⟩

theorem resync_read (c : Cursor) (draft : PropertyDraft) (s : Session σ) :
    ResyncRead c draft s (resync c draft s) := by
  unfold resync
  split
  · exact .lost ‹_›
  · rename_i landing hland
    split
    · rename_i hcolon
      rcases hread : readKey c s with ⟨_ | ⟨key, d⟩, tried⟩
      · rw [beginBeforeColon, hread]
        exact .detach hland hcolon (by rw [hread])
      · rw [beginBeforeColon, hread]
        dsimp only
        split
        · exact .key hland hcolon hread ‹_›
        · exact .detach hland hcolon (by rw [hread])
    · have hmem := PropertyDraft.mem_delimiters (nextDelimiter?_delimiter_mem hland)
      exact .mark hland (by grind)

/-- The ways in which an iteration of an object can go. -/
inductive PropertyPass (read : ValueReader σ) (c : Cursor) (draft : PropertyDraft)
    (s : Session σ) : Pass (LoopState σ PropertyDraft) (LoopEnd σ PropertyDraft) → Prop
  | ended (hend : c.rest = []) : PropertyPass read c draft s (.leave (c, draft, false, s))
  | comment {d : c.After} (hd : c.comment? = some d) :
      PropertyPass read c draft s (.again ⟨d.1, draft, s.observeComment c d⟩)
  | token {round : Round σ PropertyDraft c} (hcomment : c.comment? = none)
      (hround : TokenRound read.rule c (Nat.lt_succ_self _) draft s round) :
      PropertyPass read c draft s round.pass
  | halt (hhalt : (s.commit draft.awaited.missing c.position).halted = true) :
      PropertyPass read c draft s
        (.leave (c, draft, false, s.commit draft.awaited.missing c.position))
  | resync {next : LoopState σ PropertyDraft}
      (hgo : (s.commit draft.awaited.missing c.position).halted = false)
      (hnext : ResyncRead c draft (s.commit draft.awaited.missing c.position) next) :
      PropertyPass read c draft s (.again next)

theorem propertyBody_pass {read : ValueReader σ}
    (hquiet : ∀ n, (read.rule (n := n)).Quiet) (c : Cursor) (draft : PropertyDraft)
    (s : Session σ) : PropertyPass read c draft s (propertyBody read c draft s) := by
  unfold propertyBody
  split
  · exact .ended ‹_›
  · split
    · exact .comment ‹_›
    · split
      · exact .token ‹_› (acceptToken_token ‹_›)
      · rename_i t htoken
        obtain ⟨rfl, -⟩ := acceptToken_error (hquiet _) htoken
        dsimp only
        split
        · exact .halt ‹_›
        · exact .resync (eq_false_of_ne_true ‹_›) (resync_read c draft _)

section Properties

variable {a next : LoopState σ PropertyDraft}

theorem propertyLoop_pass (a : LoopState σ PropertyDraft) :
    PropertyPass readValue a.place.skipBlanks a.draft a.session ((propertyLoop readValue).body a) :=
  propertyBody_pass (fun _ => readValue_quiet) a.place.skipBlanks a.draft a.session

theorem ResyncRead.grows {c : Cursor} {draft : PropertyDraft} {s : Session σ}
    (h : ResyncRead c draft s next) : s.Grows next.session := by
  cases h with
  | lost | mark => exact .refl s
  | @key _ key d t _ _ hkey =>
    exact (Session.Grows.law.key hkey).trans (Session.Grows.law.begin c draft key t)
  | detach _ _ htried =>
    have htry : s.Grows (readKey c s).2 := Session.Grows.law.key (c := c) rfl
    subst htried
    exact htry.rollback.trans (Session.Grows.law.flush c draft _)

/-- The ways in which an object goes on to another iteration. -/
inductive PropertyNext (a : LoopState σ PropertyDraft) : LoopState σ PropertyDraft → Prop
  | comment {d : a.place.skipBlanks.After} (hd : a.place.skipBlanks.comment? = some d) :
      PropertyNext a ⟨d.1, a.draft, a.session.observeComment a.place.skipBlanks d⟩
  | key {key : Key} {d : a.place.skipBlanks.After} {t : Session σ}
      (hawaited : a.draft.awaited = .keyOrEnd)
      (hkey : readKey a.place.skipBlanks a.session = (some (key, d), t)) :
      PropertyNext a ⟨d.1, (a.draft.begin key t).1, (a.draft.begin key t).2⟩
  | colon {d : a.place.skipBlanks.After} (hawaited : a.draft.awaited = .colon)
      (hd : a.place.skipBlanks.Moves [':'] d.1) :
      PropertyNext a ⟨d.1, a.draft.colon a.place.skipBlanks.position, a.session⟩
  | value {value : Value} {d : a.place.skipBlanks.After} {t : Session σ}
      (hawaited : a.draft.awaited = .value)
      (hvalue : readValue a.place.skipBlanks a.session = (some (value, d), t)) :
      PropertyNext a ⟨d.1, a.draft.fill value, t⟩
  | comma {d : a.place.skipBlanks.After} (hawaited : a.draft.awaited = .commaOrEnd)
      (hd : a.place.skipBlanks.Moves [','] d.1) :
      PropertyNext a ⟨d.1, a.draft.comma a.place.skipBlanks.position, a.session⟩
  | resync {next : LoopState σ PropertyDraft}
      (hgo : (a.session.commit a.draft.awaited.missing
        a.place.skipBlanks.position).halted = false)
      (hnext : ResyncRead a.place.skipBlanks a.draft
        (a.session.commit a.draft.awaited.missing a.place.skipBlanks.position) next) :
      PropertyNext a next

/-- The ways in which the last iteration of an object goes. -/
inductive PropertyLast (a : LoopState σ PropertyDraft) : LoopEnd σ PropertyDraft → Prop
  | ended (hend : a.place.skipBlanks.rest = []) :
      PropertyLast a (a.place.skipBlanks, a.draft, false, a.session)
  | closed {d : Cursor} (hd : a.place.skipBlanks.Moves ['\x7d'] d)
      (hawaited : a.draft.awaited = .keyOrEnd ∨ a.draft.awaited = .commaOrEnd) :
      PropertyLast a (d, a.draft, true, a.session)
  | halt (hhalt : (a.session.commit a.draft.awaited.missing
        a.place.skipBlanks.position).halted = true) :
      PropertyLast a (a.place.skipBlanks, a.draft, false,
        a.session.commit a.draft.awaited.missing a.place.skipBlanks.position)

theorem propertyLoop_next (h : (propertyLoop readValue).body a = .again next) :
    PropertyNext a next := by
  have hpass := propertyLoop_pass a
  rw [h] at hpass
  generalize hnext : Pass.again next = pass at hpass
  cases hpass with
  | ended | halt => simp at hnext
  | comment hd =>
    obtain rfl := Pass.again.inj hnext
    exact .comment hd
  | token _ hround =>
    cases hround with
    | closed => simp [Round.pass] at hnext
    | key hawaited hkey =>
      obtain rfl := Pass.again.inj hnext
      exact .key hawaited hkey
    | colon hawaited hd =>
      obtain rfl := Pass.again.inj hnext
      exact .colon hawaited hd
    | value hawaited hvalue =>
      obtain rfl := Pass.again.inj hnext
      exact .value hawaited hvalue
    | comma hawaited hd =>
      obtain rfl := Pass.again.inj hnext
      exact .comma hawaited hd
  | resync hgo hresync =>
    obtain rfl := Pass.again.inj hnext
    exact .resync hgo hresync

theorem propertyLoop_last {e : LoopEnd σ PropertyDraft}
    (h : (propertyLoop readValue).body a = .leave e) : PropertyLast a e := by
  have hpass := propertyLoop_pass a
  rw [h] at hpass
  generalize hleave : Pass.leave e = pass at hpass
  cases hpass with
  | comment | resync => simp at hleave
  | ended hend =>
    obtain rfl := Pass.leave.inj hleave
    exact .ended hend
  | token _ hround =>
    cases hround with
    | key | colon | value | comma => simp [Round.pass] at hleave
    | closed hd _ hawaited =>
      obtain rfl := Pass.leave.inj hleave
      exact .closed hd hawaited
  | halt hhalt =>
    obtain rfl := Pass.leave.inj hleave
    exact .halt hhalt

theorem propertyLoop_grows (h : (propertyLoop readValue).body a = .again next) :
    a.session.Grows next.session := by
  cases propertyLoop_next h with
  | comment => exact .observe _ _
  | @key key d t _ hkey =>
    exact (Session.Grows.law.key hkey).trans
      (Session.Grows.law.begin a.place.skipBlanks a.draft key t)
  | colon | comma => exact .refl _
  | value _ hvalue => exact readValue_grows hvalue
  | resync _ hresync => exact (Session.Grows.commit _ _ _).trans hresync.grows

end Properties

/-! ### Ends -/

/-- How a loop ends: with the draft that it came to, at the place reached or behind it. -/
structure LoopState.EndsAs (b : LoopState σ δ) (e : LoopEnd σ δ) : Prop where
  draft_eq : e.2.1 = b.draft
  place_le : b.place ≤ e.1
  grows : b.session.Grows e.2.2.2

theorem LoopState.endsAs_of_exit {b : LoopState σ δ} {e : LoopEnd σ δ} (h : b.halt? = some e) :
    b.EndsAs e := by
  unfold halt? at h
  split at h
  · obtain rfl := Option.some.inj h
    exact ⟨rfl, Cursor.le_refl _, .refl _⟩
  · simp at h

theorem slotLoop_endsAs {b : LoopState σ SlotDraft} {e : LoopEnd σ SlotDraft}
    (h : (slotLoop readValue).body b = .leave e) : b.EndsAs e := by
  obtain ⟨round, hround, hbody⟩ := slotLoop_pass b
  have hpass := hbody.symm.trans h
  obtain ⟨houtcome, hsession⟩ := Round.eq_of_leave hpass
  have hle := Cursor.le_trans b.place.le_skipBlanks round.le_outcome
  have hgrows := hround.grows
  rw [houtcome] at hle
  rw [hsession] at hgrows
  refine ⟨?_, hle, hgrows⟩
  cases hround with
  | ended | closed | halt => exact congrArg (·.2.1) (Pass.leave.inj hpass).symm
  | comma | comment | value | recover => simp [Round.pass] at hpass

theorem propertyLoop_endsAs {b : LoopState σ PropertyDraft} {e : LoopEnd σ PropertyDraft}
    (h : (propertyLoop readValue).body b = .leave e) : b.EndsAs e := by
  cases propertyLoop_last h with
  | ended => exact ⟨rfl, b.place.le_skipBlanks, .refl _⟩
  | closed hd => exact ⟨rfl, Cursor.le_trans b.place.le_skipBlanks hd.le, .refl _⟩
  | halt => exact ⟨rfl, b.place.le_skipBlanks, .commit _ _ _⟩

/-- A course ends in a state that the loop came to. -/
theorem Loop.Course.last {α β : Type} {loop : Loop α β} {a : α} {states : List α} {answer : β}
    (h : loop.Course a states answer) : ∃ before b, loop.Goes a before b ∧
      (loop.exit b = some answer ∨ loop.exit b = none ∧ loop.body b = .leave answer) := by
  cases h with
  | exit h hexit => exact ⟨_, _, h, .inl hexit⟩
  | leave h hgo hbody => exact ⟨_, _, h, .inr ⟨hgo, hbody⟩⟩

theorem slotLoop_ends {a : LoopState σ SlotDraft} {states : List (LoopState σ SlotDraft)}
    {e : LoopEnd σ SlotDraft} (h : (slotLoop readValue).Course a states e) :
    ∃ before b, (slotLoop readValue).Goes a before b ∧ b.EndsAs e := by
  obtain ⟨before, b, hgoes, hexit | ⟨-, hbody⟩⟩ := h.last
  · exact ⟨before, b, hgoes, LoopState.endsAs_of_exit hexit⟩
  · exact ⟨before, b, hgoes, slotLoop_endsAs hbody⟩

theorem propertyLoop_ends {a : LoopState σ PropertyDraft}
    {states : List (LoopState σ PropertyDraft)} {e : LoopEnd σ PropertyDraft}
    (h : (propertyLoop readValue).Course a states e) :
    ∃ before b, (propertyLoop readValue).Goes a before b ∧ b.EndsAs e := by
  obtain ⟨before, b, hgoes, hexit | ⟨-, hbody⟩⟩ := h.last
  · exact ⟨before, b, hgoes, LoopState.endsAs_of_exit hexit⟩
  · exact ⟨before, b, hgoes, propertyLoop_endsAs hbody⟩

/-! ### Readings in a reading -/

/-- The next iteration of an array reads a value, if there is one. -/
structure LoopState.AtItem (a : LoopState σ SlotDraft) : Prop where
  going : a.session.halted = false
  awaits : a.draft.awaitsValue = true

/-- The next iteration of an object reads a value, if there is one. -/
structure LoopState.AtMember (a : LoopState σ PropertyDraft) : Prop where
  going : a.session.halted = false
  awaits : a.draft.awaited = .value

/-- The reading of the value at one place with one session comes to read a value at another place
with another session: through iterations of the loops of arrays and objects. -/
inductive ReadsWithin : Cursor → Session σ → Cursor → Session σ → Prop
  | here (c : Cursor) (s : Session σ) : ReadsWithin c s c s
  | item {c inner d : Cursor} {s t : Session σ} {states : List (LoopState σ SlotDraft)}
      {a : LoopState σ SlotDraft} (hinner : c.Moves ['['] inner)
      (hgoes : (slotLoop readValue).Goes ⟨inner, {}, s⟩ states a) (hreads : a.AtItem)
      (h : ReadsWithin a.place.skipBlanks a.session d t) : ReadsWithin c s d t
  | member {c inner d : Cursor} {s t : Session σ} {states : List (LoopState σ PropertyDraft)}
      {a : LoopState σ PropertyDraft} (hinner : c.Moves ['\x7b'] inner)
      (hbrace : inner.rest.head? ≠ some '\x7b')
      (hgoes : (propertyLoop readValue).Goes ⟨inner, {}, s⟩ states a) (hreads : a.AtMember)
      (h : ReadsWithin a.place.skipBlanks a.session d t) : ReadsWithin c s d t

theorem slotLoop_goes_grows {a b : LoopState σ SlotDraft} {states : List (LoopState σ SlotDraft)}
    (h : (slotLoop readValue).Goes a states b) : a.session.Grows b.session := by
  induction h with
  | start => exact .refl _
  | again _ _ hbody ih => exact ih.trans (slotLoop_grows hbody)

theorem propertyLoop_goes_grows {a b : LoopState σ PropertyDraft}
    {states : List (LoopState σ PropertyDraft)} (h : (propertyLoop readValue).Goes a states b) :
    a.session.Grows b.session := by
  induction h with
  | start => exact .refl _
  | again _ _ hbody ih => exact ih.trans (propertyLoop_grows hbody)

theorem ReadsWithin.grows {c d : Cursor} {s t : Session σ} (h : ReadsWithin c s d t) :
    s.Grows t := by
  induction h with
  | here c s => exact .refl s
  | item _ hgoes _ _ ih => exact (slotLoop_goes_grows hgoes).trans ih
  | member _ _ hgoes _ _ ih => exact (propertyLoop_goes_grows hgoes).trans ih

/-- A value was read in an iteration of an array, before the moment of a session. -/
def ItemRead (start : LoopState σ SlotDraft) (u : Session σ) (v : Value) : Prop :=
  ∃ states a d t, (slotLoop readValue).Goes start states a ∧ a.AtItem ∧
    readValue a.place.skipBlanks a.session = (some (v, d), t) ∧ t.Grows u

/-- A value was read in an iteration of an object, before the moment of a session. -/
def MemberRead (start : LoopState σ PropertyDraft) (u : Session σ) (v : Value) : Prop :=
  ∃ states a d t, (propertyLoop readValue).Goes start states a ∧ a.AtMember ∧
    readValue a.place.skipBlanks a.session = (some (v, d), t) ∧ t.Grows u

theorem ItemRead.grows {start : LoopState σ SlotDraft} {u w : Session σ} {v : Value}
    (h : ItemRead start u v) (hgrows : u.Grows w) : ItemRead start w v := by
  obtain ⟨states, a, d, t, hgoes, hreads, hvalue, ht⟩ := h
  exact ⟨states, a, d, t, hgoes, hreads, hvalue, ht.trans hgrows⟩

theorem MemberRead.grows {start : LoopState σ PropertyDraft} {u w : Session σ} {v : Value}
    (h : MemberRead start u v) (hgrows : u.Grows w) : MemberRead start w v := by
  obtain ⟨states, a, d, t, hgoes, hreads, hvalue, ht⟩ := h
  exact ⟨states, a, d, t, hgoes, hreads, hvalue, ht.trans hgrows⟩

/-- Every value in an array was read in an iteration of its loop. -/
theorem slotLoop_values {inner : Cursor} {s : Session σ} {states : List (LoopState σ SlotDraft)}
    {b : LoopState σ SlotDraft} (h : (slotLoop readValue).Goes ⟨inner, {}, s⟩ states b) :
    ∀ v ∈ slotValues b.draft.slots, ItemRead ⟨inner, {}, s⟩ b.session v := by
  induction h with
  | start => simp [slotValues, SlotDraft.slots]
  | @again states b next hgoes hgo hbody ih =>
    have hgrows := slotLoop_grows hbody
    have hold (v : Value) (hv : v ∈ slotValues b.draft.slots) :
        ItemRead ⟨inner, {}, s⟩ next.session v := (ih v hv).grows hgrows
    obtain ⟨round, hround, hpass⟩ := slotLoop_pass b
    have hnext := hpass.symm.trans hbody
    cases hround with
    | ended | closed | halt => simp [Round.pass] at hnext
    | comment | recover =>
      obtain rfl := Pass.again.inj hnext
      exact hold
    | comma =>
      obtain rfl := Pass.again.inj hnext
      rwa [SlotDraft.values_comma]
    | @value value d t _ hopen hvalue =>
      obtain rfl := Pass.again.inj hnext
      rw [SlotDraft.values_fill hopen, List.forall_mem_append]
      have hreads : b.AtItem := ⟨LoopState.halt?_eq_none.mp hgo, hopen⟩
      exact ⟨hold, List.forall_mem_singleton.mpr
        ⟨states, b, d, t, hgoes, hreads, hvalue, .refl t⟩⟩

/-- What holds of a property with a key alone, and goes on to hold as the loop of an object meets
its other parts, holds of every property. -/
theorem propertyLoop_forall {holds : Property Value → Prop} {a next : LoopState σ PropertyDraft}
    (hgo : a.session.halted = false) (hbody : (propertyLoop readValue).body a = .again next)
    (hkey : ∀ key, holds ⟨key, none, none, none⟩)
    (hcolon : ∀ p position, holds p → holds { p with colon := some position })
    (hvalue : ∀ v d t, a.AtMember →
      readValue a.place.skipBlanks a.session = (some (v, d), t) → next.session = t →
      ∀ p, holds p → holds { p with value := some v })
    (hcomma : ∀ p position, holds p → holds { p with comma := some position })
    (h : ∀ p ∈ a.draft.properties, holds p) : ∀ p ∈ next.draft.properties, holds p := by
  have hbegin (key : Key) (t : Session σ) : ∀ p ∈ (a.draft.begin key t).1.properties, holds p := by
    rw [PropertyDraft.properties_begin, List.forall_mem_append]
    exact ⟨h, List.forall_mem_singleton.mpr (hkey key)⟩
  cases propertyLoop_next hbody with
  | comment => exact h
  | key => exact hbegin _ _
  | colon => exact PropertyDraft.forall_modify h fun p _ => hcolon p _
  | value hawaited hread =>
    exact PropertyDraft.forall_modify h fun p _ => hvalue _ _ _ ⟨hgo, hawaited⟩ hread rfl p
  | comma => exact PropertyDraft.forall_modify h fun p _ => hcomma p _
  | resync _ hresync =>
    cases hresync with
    | lost | mark => exact h
    | key => exact hbegin _ _
    | @detach landing tried =>
      have hflush := a.draft.properties_flush
        (tried.rollback (a.session.commit a.draft.awaited.missing
          a.place.skipBlanks.position).checkpoint)
      rw [← hflush] at h
      exact h

/-- Every value in an object was read in an iteration of its loop. -/
theorem propertyLoop_values {inner : Cursor} {s : Session σ}
    {states : List (LoopState σ PropertyDraft)} {b : LoopState σ PropertyDraft}
    (h : (propertyLoop readValue).Goes ⟨inner, {}, s⟩ states b) :
    ∀ p ∈ b.draft.properties, ∀ v, p.value = some v →
      MemberRead ⟨inner, {}, s⟩ b.session v := by
  induction h with
  | start => simp [PropertyDraft.properties]
  | @again states b next hgoes hgo hbody ih =>
    have hgrows := propertyLoop_grows hbody
    refine propertyLoop_forall (LoopState.halt?_eq_none.mp hgo) hbody (by simp)
      (fun _ _ h => h) ?_ (fun _ _ h => h) fun p hp v hv => (ih p hp v hv).grows hgrows
    rintro v d t hreads hvalue rfl p - w hw
    obtain rfl := Option.some.inj hw
    exact ⟨states, b, d, _, hgoes, hreads, hvalue, .refl _⟩

/-! ### Values -/

theorem LoopEnd.array_eq {c : Cursor} {e : LoopEnd σ SlotDraft} {span : Span}
    {slots : List (Slot Value)} {t : Session σ}
    (h : LoopEnd.array c e = (.array span slots, t)) :
    span = ⟨c.position, e.1.position⟩ ∧ slots = e.2.1.finish ∧ e.2.2.2.Grows t := by
  obtain ⟨last, draft, closed, u⟩ := e
  obtain ⟨hvalue, rfl⟩ := Prod.mk.inj h
  obtain ⟨rfl, rfl⟩ := Value.array.inj hvalue
  exact ⟨rfl, rfl, (Session.Grows.law.commitUnclosed c u closed _ _).trans (.observe _ _)⟩

theorem LoopEnd.object_eq {c : Cursor} {e : LoopEnd σ PropertyDraft} {span : Span}
    {properties : List (Property Value)} {t : Session σ}
    (h : LoopEnd.object c e = (.object span properties, t)) :
    span = ⟨c.position, e.1.position⟩ ∧ properties = e.2.1.properties ∧ e.2.2.2.Grows t ∧
      t.problems =
        (e.2.2.2.commitUnclosed e.2.2.1 e.2.1.awaited.missing e.1.position).problems := by
  obtain ⟨last, draft, closed, u⟩ := e
  rw [object] at h
  generalize hunclosed : u.commitUnclosed closed draft.awaited.missing last.position = w at h
  have hcommit : u.Grows w := hunclosed ▸ Session.Grows.law.commitUnclosed c u closed _ _
  have hflush : w.Grows (draft.flush w).2 := Session.Grows.law.flush c draft w
  have hproperties := draft.finished_flush w
  have hproblems : (draft.flush w).2.problems = w.problems := by
    unfold PropertyDraft.flush
    split <;> rfl
  generalize draft.flush w = flushed at h hflush hproperties hproblems
  obtain ⟨hvalue, rfl⟩ := Prod.mk.inj h
  obtain ⟨rfl, rfl⟩ := Value.object.inj hvalue
  exact ⟨rfl, hproperties, hcommit.trans (hflush.trans (.observe _ _)), hproblems⟩

/-- An array is what the loop behind its bracket ends with. -/
theorem readValue_array_course {c : Cursor} {s t : Session σ} {span : Span} {slots : List (Slot Value)}
    {d : c.After} (h : readValue c s = (some (.array span slots, d), t)) :
    ∃ inner states e, c.Moves ['['] inner ∧
      (slotLoop readValue).Course ⟨inner, {}, s⟩ states e ∧
      LoopEnd.array c e = (.array span slots, t) ∧ e.1 = d.1 := by
  have hread := readValue_read c s
  rw [h] at hread
  generalize hvalue : Value.array span slots = value at hread
  cases hread with
  | text | expression | scalar => simp at hvalue
  | object _ _ _ _ hobject => simp [hobject] at hvalue
  | @array inner hlt last draft closed u _ hinner hslots harray hd =>
    obtain ⟨k, hruns⟩ := slotLoop_runs readValue inner hlt {} s
    obtain ⟨states, hcourse⟩ := hruns.course
    have hend : roundsEnd (slotStep fun c _ s => readValue c s) inner hlt {} s =
        (last.1, draft, closed, u) := by
      rw [roundsEnd, ← readSlots_eq_rounds, hslots]
    rw [hend] at hcourse
    exact ⟨inner, states, _, hinner, hcourse, by rw [harray]; rfl, rfl⟩

/-- An object is what the loop behind its brace ends with. -/
theorem readValue_object_course {c : Cursor} {s t : Session σ} {span : Span}
    {properties : List (Property Value)} {d : c.After}
    (h : readValue c s = (some (.object span properties, d), t)) :
    ∃ inner states e, c.Moves ['\x7b'] inner ∧ inner.rest.head? ≠ some '\x7b' ∧
      (propertyLoop readValue).Course ⟨inner, {}, s⟩ states e ∧
      LoopEnd.object c e = (.object span properties, t) ∧ e.1 = d.1 := by
  have hread := readValue_read c s
  rw [h] at hread
  generalize hvalue : Value.object span properties = value at hread
  cases hread with
  | text | expression | scalar => simp at hvalue
  | array _ _ harray => simp [harray] at hvalue
  | @object inner hlt last draft closed u w _ hinner hbrace hproperties hw hobject hd =>
    obtain ⟨k, e, hruns, hsettle⟩ := propertyLoop_runs readValue inner hlt {} s
    obtain ⟨states, hcourse⟩ := hruns.course
    have hend : roundsEnd (propertyStep fun c _ s => readValue c s) inner hlt {} s =
        (last.1, draft, closed, u) := by
      rw [roundsEnd, ← readProperties_eq_rounds, hproperties]
    have hobjects := congrArg (LoopEnd.object c) hsettle
    have hlasts := congrArg Prod.fst hsettle
    rw [LoopEnd.object_settle, LoopEnd.object_settle, hend] at hobjects
    rw [LoopEnd.last_settle, LoopEnd.last_settle, hend] at hlasts
    refine ⟨inner, states, e, hinner, hbrace, hcourse, ?_, hlasts⟩
    rw [hobjects, hobject, hw]
    rfl

/-- An array or an object. -/
def Value.isComposite : Value → Bool
  | array _ _ | object _ _ => true
  | _ => false

theorem Text.not_composite_mem {t : Text} {v : Value} (hv : v.isComposite = true) :
    Node.value v ∉ t.nodes := by
  rw [nodes, List.mem_cons, not_or]
  constructor
  · rintro h
    obtain rfl := Node.value.inj h
    simp [Value.isComposite] at hv
  · intro h
    obtain ⟨part, -, hpart⟩ := List.mem_map.mp h
    cases part with
    | segment => simp [TextPart.node] at hpart
    | expression =>
      obtain rfl := Node.value.inj hpart
      simp [Value.isComposite] at hv

theorem Key.not_composite_mem {key : Key} {v : Value} (hv : v.isComposite = true) :
    Node.value v ∉ key.nodes := by
  cases key with
  | text => exact Text.not_composite_mem hv
  | expression =>
    intro h
    obtain rfl := Node.value.inj (List.mem_singleton.mp h)
    simp [Value.isComposite] at hv
  | identifier => simp [nodes]

theorem EmptyInput.not_composite_mem {emptyInput : EmptyInput} {position : Nat} {v : Value}
    (hv : v.isComposite = true) : Node.value v ∉ (emptyInput.value position).nodes := by
  cases emptyInput with
  | asUndefined =>
    intro h
    obtain rfl := Node.value.inj (List.mem_singleton.mp h)
    simp [Value.isComposite] at hv
  | asEmptyString => exact Text.not_composite_mem hv

/-- A reading of `v`, in the reading of a value at `c` with `s` that leaves `t`. -/
def ReadIn (c : Cursor) (s t : Session σ) (v : Value) : Prop :=
  ∃ c' s' d' t', ReadsWithin c s c' s' ∧ readValue c' s' = (some (v, d'), t') ∧ t'.Grows t

theorem slotLoop_le {a b : LoopState σ SlotDraft} {states : List (LoopState σ SlotDraft)}
    (h : (slotLoop readValue).Goes a states b) : a.place ≤ b.place :=
  h.invariant (fun _ _ hle _ hbody =>
    Cursor.le_trans hle (Cursor.le_of_lt (slotLoop_lt readValue hbody))) (Cursor.le_refl _)

theorem propertyLoop_goes_le {a b : LoopState σ PropertyDraft}
    {states : List (LoopState σ PropertyDraft)} (h : (propertyLoop readValue).Goes a states b) :
    a.place ≤ b.place :=
  h.invariant (fun _ _ hle _ hbody => Cursor.le_trans hle (propertyLoop_le readValue hbody))
    (Cursor.le_refl _)

/-- What an array or object at `c` reads is shorter than it. -/
theorem Cursor.Moves.length_skipBlanks_lt {c inner place : Cursor} {x : Char}
    (h : c.Moves [x] inner) (hle : inner ≤ place) :
    place.skipBlanks.rest.length < c.rest.length :=
  Cursor.length_lt_of_lt (Cursor.lt_of_lt_of_le (h.lt (by simp))
    (Cursor.le_trans hle place.le_skipBlanks))

theorem SlotDraft.finish_sublist (draft : SlotDraft) : draft.finish.Sublist draft.slots := by
  unfold finish
  split
  · exact List.dropLast_sublist _
  · exact List.Sublist.refl _

/-- Every array and object in a value was read when the value was. -/
theorem readValue_within {c : Cursor} {s t : Session σ} {value v : Value} {d : c.After}
    (h : readValue c s = (some (value, d), t)) (hv : v.isComposite = true)
    (hmem : Node.value v ∈ value.nodes) : ReadIn c s t v := by
  cases value with
  | scalar | expression =>
    rw [Value.nodes, List.mem_singleton] at hmem
    obtain rfl := Node.value.inj hmem
    simp [Value.isComposite] at hv
  | text => exact absurd hmem (Text.not_composite_mem hv)
  | array span slots =>
    rw [Value.nodes, List.mem_cons, slotNodes_eq, List.mem_flatMap] at hmem
    rcases hmem with hmem | ⟨child, hchild, hmem⟩
    · obtain rfl := Node.value.inj hmem
      exact ⟨c, s, d, t, .here c s, h, .refl t⟩
    · obtain ⟨inner, states, e, hinner, hcourse, harray, -⟩ := readValue_array_course h
      obtain ⟨before, b, hgoes, hends⟩ := slotLoop_ends hcourse
      obtain ⟨-, hslots, hgrows⟩ := LoopEnd.array_eq harray
      rw [hslots, hends.draft_eq] at hchild
      have hchild : child ∈ slotValues b.draft.slots :=
        (b.draft.finish_sublist.filterMap _).subset hchild
      obtain ⟨_, a, d', t', hreach, hreads, hread, hmore⟩ := slotLoop_values hgoes child hchild
      -- an item stands behind the bracket, so what it is read from is shorter
      have hshort := hinner.length_skipBlanks_lt (slotLoop_le hreach)
      obtain ⟨c'', s'', d'', t'', hwithin, hfound, hgrows'⟩ := readValue_within hread hv hmem
      exact ⟨c'', s'', d'', t'', .item hinner hreach hreads hwithin, hfound,
        hgrows'.trans (hmore.trans (hends.grows.trans hgrows))⟩
  | object span properties =>
    rw [Value.nodes, List.mem_cons, propertyNodes_eq, List.mem_flatMap] at hmem
    rcases hmem with hmem | ⟨p, hp, hmem⟩
    · obtain rfl := Node.value.inj hmem
      exact ⟨c, s, d, t, .here c s, h, .refl t⟩
    · obtain ⟨inner, states, e, hinner, hbrace, hcourse, hobject, -⟩ := readValue_object_course h
      obtain ⟨before, b, hgoes, hends⟩ := propertyLoop_ends hcourse
      obtain ⟨-, hproperties, hgrows, -⟩ := LoopEnd.object_eq hobject
      rw [hproperties, hends.draft_eq] at hp
      rw [Property.nodes, List.mem_cons, List.mem_append, List.mem_flatMap] at hmem
      rcases hmem with hmem | hmem | ⟨child, hchild, hmem⟩
      · simp at hmem
      · exact absurd hmem (Key.not_composite_mem hv)
      · obtain ⟨_, a, d', t', hreach, hreads, hread, hmore⟩ :=
          propertyLoop_values hgoes p hp child (by simpa using hchild)
        have hshort := hinner.length_skipBlanks_lt (propertyLoop_goes_le hreach)
        obtain ⟨c'', s'', d'', t'', hwithin, hfound, hgrows'⟩ := readValue_within hread hv hmem
        exact ⟨c'', s'', d'', t'', .member hinner hbrace hreach hreads hwithin, hfound,
          hgrows'.trans (hmore.trans (hends.grows.trans hgrows))⟩
termination_by c.rest.length

/-! ### Documents -/

section Document

variable {options : ReadOptions} {hooks : Hooks σ} {state : σ} {source : List Char}

/-- A value was read in the reading of a document, at `c` with `s` up to `d` with `t`, and the
problems met so far are problems of the document. -/
structure ReadInDocument (options : ReadOptions) (hooks : Hooks σ) (state : σ)
    (source : List Char) (document : Document) (v : Value) (c : Cursor) (s : Session σ)
    (d : c.After) (t : Session σ) : Prop where
  within : ReadsWithin (documentStart options hooks state source)
    (openDocument options hooks state source).2 c s
  reads : readValue c s = (some (v, d), t)
  problems : t.problems.toList <+: document.problems

/-- Every array and object of a document was read when the document was. -/
theorem readDocument_reads {document : Document} {root v : Value}
    (hdocument : (readDocument options hooks state source).1 = .ok document)
    (hroot : document.root = some root) (hv : v.isComposite = true)
    (hreach : (Node.value root).Reaches (.value v)) :
    ∃ c s d t, ReadInDocument options hooks state source document v c s d t := by
  have hmem : Node.value v ∈ root.nodes := hreach.mem_preorder
  have hread := readDocument_read options hooks state source
  generalize readDocument options hooks state source = outcome at hread hdocument
  cases hread with
  | asValue =>
    obtain rfl := Except.ok.inj hdocument
    have hfirst := firstRoot_read options hooks state source
    have hnoted : (firstRoot options hooks state source).2.problems.toList <+:
        (notedSession options hooks state source).problems.toList := by
      rcases noteRemainder_cases options (firstRoot options hooks state source).1
        (firstRoot options hooks state source).2 with hsame | ⟨position, hpush⟩
      · exact (congrArg (·.problems.toList) hsame).symm ▸ List.prefix_refl _
      · exact (congrArg (·.problems.toList) hpush).symm ▸ by simp [Session.push]
    generalize firstRoot options hooks state source = read at hfirst hnoted hroot
    cases hfirst with
    | empty _ hvalue =>
      obtain rfl := Option.some.inj hroot
      exact absurd (hvalue ▸ hmem) (EmptyInput.not_composite_mem hv)
    | value hvalue =>
      obtain rfl := Option.some.inj hroot
      obtain ⟨c, s, d, t, hwithin, hfound, hgrows⟩ := readValue_within hvalue hv hmem
      exact ⟨c, s, d, t, hwithin, hfound, hgrows.problems.trans hnoted⟩
    | none => simp at hroot
  | asString =>
    obtain rfl := Except.ok.inj hdocument
    obtain rfl := Option.some.inj hroot
    exact absurd hmem (Text.not_composite_mem hv)
  | failed => simp at hdocument

end Document

end DataTemplate
