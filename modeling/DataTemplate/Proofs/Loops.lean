/-
The loops of the reader, iteration by iteration.  A loop that gets on in every iteration, or at
least in every other one, ends within a bound; the walk to the next delimiter and the reading of an
array are such loops.  Main statements: `Loop.runs_of_advances`, `Loop.runs_of_pauses`,
`delimiterLoop_answer` and `slotLoop_runs`.
-/
import DataTemplate.Proofs.Recovery

namespace DataTemplate

/-! ### Loops -/

/-- What an iteration of a loop comes to: the state that the loop goes on in, or the answer that it
is left with. -/
inductive Pass (α β : Type) where
  | again (next : α)
  | leave (answer : β)

/-- A loop: the answer with which it ends before an iteration, if it does, and the iteration. -/
structure Loop (α β : Type) where
  exit : α → Option β
  body : α → Pass α β

namespace Loop

variable {α β : Type} {loop : Loop α β}

/-- From a state the loop ends after a number of iterations, with an answer. -/
inductive Runs (loop : Loop α β) : α → Nat → β → Prop
  | exit {a : α} {answer : β} (h : loop.exit a = some answer) : Runs loop a 0 answer
  | leave {a : α} {answer : β} (hgo : loop.exit a = none) (h : loop.body a = .leave answer) :
      Runs loop a 1 answer
  | again {a next : α} {k : Nat} {answer : β} (hgo : loop.exit a = none)
      (h : loop.body a = .again next) (hrest : Runs loop next k answer) :
      Runs loop a (k + 1) answer

/-- A loop runs in one way only. -/
theorem Runs.unique {a : α} {k k' : Nat} {answer answer' : β} (h : loop.Runs a k answer)
    (h' : loop.Runs a k' answer') : k = k' ∧ answer = answer' := by
  induction h generalizing k' with
  | exit hexit =>
    cases h' with
    | exit hexit' => exact ⟨rfl, Option.some.inj (hexit.symm.trans hexit')⟩
    | leave hgo' | again hgo' => simp [hexit] at hgo'
  | leave hgo hbody =>
    cases h' with
    | exit hexit' => simp [hgo] at hexit'
    | leave _ hbody' => exact ⟨rfl, Pass.leave.inj (hbody.symm.trans hbody')⟩
    | again _ hbody' => simp [hbody] at hbody'
  | again hgo hbody _ ih =>
    cases h' with
    | exit hexit' => simp [hgo] at hexit'
    | leave _ hbody' => simp [hbody] at hbody'
    | again _ hbody' hrest' =>
      obtain rfl := Pass.again.inj (hbody.symm.trans hbody')
      obtain ⟨rfl, rfl⟩ := ih hrest'
      exact ⟨rfl, rfl⟩

/-- From a state the loop ends after at most so many iterations. -/
def EndsWithin (loop : Loop α β) (a : α) (bound : Nat) : Prop :=
  ∃ k answer, loop.Runs a k answer ∧ k ≤ bound

/-- There is an iteration from a state, and it leaves the loop or makes the state smaller. -/
def GetsOn (loop : Loop α β) (size : α → Nat) (a : α) : Prop :=
  loop.exit a = none ∧ ∀ next, loop.body a = .again next → size next < size a

variable {size : α → Nat}

/-- A loop that makes its state smaller in every iteration ends. -/
theorem runs_of_advances
    (hstep : ∀ a next, loop.exit a = none → loop.body a = .again next → size next < size a)
    (a : α) : loop.EndsWithin a (size a + 1) := by
  induction hsize : size a using Nat.strongRecOn generalizing a with
  | _ n ih =>
    subst hsize
    cases hexit : loop.exit a with
    | some answer => exact ⟨0, answer, .exit hexit, Nat.zero_le _⟩
    | none =>
      cases hbody : loop.body a with
      | leave answer => exact ⟨1, answer, .leave hexit hbody, by omega⟩
      | again next =>
        have hless := hstep a next hexit hbody
        obtain ⟨k, answer, hruns, hk⟩ := ih _ hless next rfl
        exact ⟨k + 1, answer, .again hexit hbody hruns, by omega⟩

/-- A loop ends even if it does not get on in every iteration, as long as it does in the next. -/
theorem runs_of_pauses
    (hle : ∀ a next, loop.exit a = none → loop.body a = .again next → size next ≤ size a)
    (hpause : ∀ a next, loop.exit a = none → loop.body a = .again next → ¬ size next < size a →
      loop.GetsOn size next) (a : α) : loop.EndsWithin a (2 * size a + 2) := by
  induction hsize : size a using Nat.strongRecOn generalizing a with
  | _ n ih =>
    subst hsize
    cases hexit : loop.exit a with
    | some answer => exact ⟨0, answer, .exit hexit, Nat.zero_le _⟩
    | none =>
      cases hbody : loop.body a with
      | leave answer => exact ⟨1, answer, .leave hexit hbody, by omega⟩
      | again next =>
        by_cases hless : size next < size a
        · obtain ⟨k, answer, hruns, hk⟩ := ih _ hless next rfl
          exact ⟨k + 1, answer, .again hexit hbody hruns, by omega⟩
        · obtain ⟨hgo, hnext⟩ := hpause a next hexit hbody hless
          cases hbody' : loop.body next with
          | leave answer => exact ⟨2, answer, .again hexit hbody (.leave hgo hbody'), by omega⟩
          | again after =>
            have hless := Nat.lt_of_lt_of_le (hnext after hbody') (hle a next hexit hbody)
            obtain ⟨k, answer, hruns, hk⟩ := ih _ hless after rfl
            exact ⟨k + 2, answer, .again hexit hbody (.again hgo hbody' hruns), by omega⟩

end Loop

/-! ### Bytes left -/

theorem Cursor.byteLength_rest_le {c d : Cursor} :
    c ≤ d → byteLength d.rest ≤ byteLength c.rest := by
  rintro ⟨text, hmoves⟩
  rw [hmoves.rest_eq, byteLength_append]
  exact Nat.le_add_left _ _

theorem Cursor.byteLength_rest_lt {c d : Cursor} :
    c < d → byteLength d.rest < byteLength c.rest := by
  rintro ⟨text, hne, hmoves⟩
  have hpos := byteLength_pos_iff.mpr hne
  rw [hmoves.rest_eq, byteLength_append]
  omega

/-! ### The walk to the next delimiter -/

/-- The text in front of the first of some single characters is free of them. -/
theorem free_of_search_some {stops text : List Char} {found : Occurrence}
    (h : search (stops.map fun stop => [stop]) none text = some found) :
    ∀ x ∈ found.before, x ∉ stops := by
  intro x hx
  obtain ⟨xs, ys, hsplit⟩ := List.append_of_mem hx
  have hnone := search_leftmost h (List.cons_ne_nil x ys) hsplit.symm
  rw [List.cons_append, needleAt?_singletons] at hnone
  simpa using hnone

/-- What stops or delays the walk: a delimiter or an opening bracket. -/
def walkStops (delimiters : List Char) : List Char := delimiters ++ ['(', '[', '{']

/-- The walk to the next delimiter as a search for delimiters and opening brackets: one after the
other, until it is a delimiter.  The answer is the delimiter and its place. -/
def delimiterLoop (delimiters : List Char) : Loop Cursor (Option (List Char × Cursor)) where
  exit _ := none
  body c :=
    match c.find ((walkStops delimiters).map fun stop => [stop]) none with
    | none => .leave none
    | some hit =>
      if hit.needle ∈ delimiters.map fun delimiter => [delimiter] then
        .leave (some (hit.needle, hit.start))
      else
        match hit.start.matchBalanced bracketGroups ['\\'] with
        | some (_, d) => .again d.1
        | none => .again hit.stop

/-- The delimiter that the walk comes to, and its place. -/
def walkTo (delimiters : List Char) (c : Cursor) : Option (List Char × Cursor) :=
  (nextDelimiter? delimiters c).map fun landing => ([landing.delimiter], landing.here)

section Walk

variable {delimiters : List Char} {c d : Cursor}

theorem delimiterLoop_lt (h : (delimiterLoop delimiters).body c = .again d) : c < d := by
  simp only [delimiterLoop] at h
  split at h
  · simp at h
  · rename_i hit _
    split at h
    · simp at h
    · split at h
      · rename_i e _
        obtain rfl := Pass.again.inj h
        exact Cursor.lt_of_le_of_lt hit.le_start e.2
      · obtain rfl := Pass.again.inj h
        exact hit.lt_stop

theorem walkTo_here {x : Char} {rest : List Char} (hc : c.rest = x :: rest) (hx : x ∈ delimiters) :
    walkTo delimiters c = some ([x], c) := by
  obtain ⟨landing, hland, hdelimiter, hhere⟩ := nextDelimiter?_here hc hx
  rw [walkTo, hland, Option.map_some, hdelimiter, hhere]

theorem walkTo_stride {x : Char} {rest : List Char} (hc : c.rest = x :: rest)
    (hx : x ∉ delimiters) :
    walkTo delimiters c = walkTo delimiters (c.stride (Cursor.rest_ne_nil hc)).1 := by
  rw [walkTo, nextDelimiter?_stride hc hx, Option.map_map]
  rfl

/-- The walk passes over text without delimiters and opening brackets. -/
theorem walkTo_free {text : List Char} (hfree : ∀ x ∈ text, x ∉ walkStops delimiters)
    (hd : c.Moves text d) : walkTo delimiters c = walkTo delimiters d := by
  induction text generalizing c with
  | nil => rw [hd.unique (.refl c)]
  | cons x text ih =>
    obtain ⟨hx, htext⟩ := List.forall_mem_cons.mp hfree
    rw [walkStops, List.mem_append, not_or] at hx
    have hhead : c.rest = x :: (text ++ d.rest) := hd.rest_eq
    have hsplit : c.Moves ([x] ++ text) d := hd
    obtain ⟨e, he, hmore⟩ := hsplit.split
    obtain rfl := he.unique (Cursor.moves_next hhead)
    rw [walkTo_stride hhead hx.1, Cursor.stride_eq_next hhead hx.2]
    exact ih htext hmore

theorem walkTo_end (hc : c.rest = []) : walkTo delimiters c = none := by
  rw [walkTo, nextDelimiter?]
  split <;> simp_all

/-- An iteration answers as the walk does, or leaves the answer to the next one. -/
theorem delimiterLoop_body (delimiters : List Char) (c : Cursor) :
    (∃ d, (delimiterLoop delimiters).body c = .again d ∧
      walkTo delimiters c = walkTo delimiters d) ∨
    (delimiterLoop delimiters).body c = .leave (walkTo delimiters c) := by
  simp only [delimiterLoop]
  split
  · rename_i hfind
    have hfree := free_of_search_none (Cursor.search_of_find_none hfind)
    rw [walkTo_free hfree c.moves_toEnd, walkTo_end rfl]
    exact .inr rfl
  · rename_i hit hfind
    have hfree := free_of_search_some (Cursor.search_of_find hfind)
    rw [walkTo_free hfree hit.reach]
    obtain ⟨x, hx, hneedle⟩ := List.mem_map.mp hit.mem
    have hhead : hit.start.rest = x :: hit.stop.rest := by rw [hit.rest_start, ← hneedle]; rfl
    by_cases hdelimiter : x ∈ delimiters
    · rw [if_pos (by simpa [← hneedle] using hdelimiter), walkTo_here hhead hdelimiter, hneedle]
      exact .inr rfl
    · rw [if_neg (by simpa [← hneedle] using hdelimiter), walkTo_stride hhead hdelimiter,
        Cursor.stride]
      refine .inl ?_
      cases hit.start.matchBalanced bracketGroups ['\\'] with
      | some found => exact ⟨_, rfl, rfl⟩
      | none =>
        have hnext : hit.start.Moves [x] hit.stop := by
          rw [hneedle]
          exact hit.spell
        exact ⟨_, rfl, congrArg (walkTo delimiters) ((Cursor.moves_next hhead).unique hnext)⟩

/-- The loop comes to the delimiter that the walk comes to. -/
theorem delimiterLoop_answer {k : Nat} {answer : Option (List Char × Cursor)}
    (h : (delimiterLoop delimiters).Runs c k answer) : answer = walkTo delimiters c := by
  induction h with
  | exit hexit => simp [delimiterLoop] at hexit
  | @leave c answer _ hbody =>
    rcases delimiterLoop_body delimiters c with ⟨d, hagain, -⟩ | hleave
    · simp [hbody] at hagain
    · exact Pass.leave.inj (hbody.symm.trans hleave)
  | @again c next k answer _ hbody _ ih =>
    rcases delimiterLoop_body delimiters c with ⟨d, hagain, hwalk⟩ | hleave
    · obtain rfl := Pass.again.inj (hbody.symm.trans hagain)
      exact ih.trans hwalk.symm
    · simp [hbody] at hleave

end Walk

/-! ### Arrays -/

variable {σ δ : Type} {n : Nat}

/-- A way to read a value at any place. -/
abbrev ValueReader (σ : Type) := (c : Cursor) → Session σ → Reading σ Value c

/-- A reader as the rule for the values in an array or an object. -/
abbrev ValueReader.rule (read : ValueReader σ) : ValueRule σ n := fun c _ s => read c s

/-- The state of the loop of an array or an object: the place, what has been built, the session. -/
structure LoopState (σ δ : Type) where
  place : Cursor
  draft : δ
  session : Session σ

/-- Where such a loop ends, what it has built, whether it met the closing bracket, the session. -/
abbrev LoopEnd (σ δ : Type) := Cursor × δ × Bool × Session σ

namespace LoopState

variable {a : LoopState σ δ}

/-- A session that has halted ends the loop. -/
def halt? (a : LoopState σ δ) : Option (LoopEnd σ δ) :=
  if a.session.halted then some (a.place, a.draft, false, a.session) else none

theorem halt?_of_halted (h : a.session.halted = true) :
    a.halt? = some (a.place, a.draft, false, a.session) := if_pos h

theorem halt?_eq_none : a.halt? = none ↔ a.session.halted = false := by
  cases hhalted : a.session.halted <;> simp [halt?, hhalted]

/-- How many bytes are left. -/
def remaining (a : LoopState σ δ) : Nat := byteLength a.place.rest

theorem remaining_le {a next : LoopState σ δ} (h : a.place ≤ next.place) :
    next.remaining ≤ a.remaining := Cursor.byteLength_rest_le h

theorem remaining_lt {a next : LoopState σ δ} (h : a.place < next.place) :
    next.remaining < a.remaining := Cursor.byteLength_rest_lt h

end LoopState

/-- A round as an iteration. -/
def Round.pass {c : Cursor} : Round σ δ c → Pass (LoopState σ δ) (LoopEnd σ δ)
  | .again next draft s => .again ⟨next.1, draft, s⟩
  | .stop last draft closed s => .leave (last.1, draft, closed, s)

theorem Round.lt_of_pass {c : Cursor} {round : Round σ δ c} {next : LoopState σ δ}
    (h : round.pass = .again next) : c < next.place := by
  cases round with
  | again d draft s =>
    obtain rfl := Pass.again.inj h
    exact d.2
  | stop => simp [pass] at h

/-- The loop of an array. -/
def slotLoop (read : ValueReader σ) : Loop (LoopState σ SlotDraft) (LoopEnd σ SlotDraft) where
  exit := LoopState.halt?
  body a :=
    (slotStep read.rule a.place.skipBlanks (Nat.lt_succ_self _) a.draft a.session).pass

section Slots

variable (read : ValueReader σ)

theorem slotLoop_lt {a next : LoopState σ SlotDraft} (h : (slotLoop read).body a = .again next) :
    a.place < next.place :=
  Cursor.lt_of_le_of_lt a.place.le_skipBlanks (Round.lt_of_pass h)

/-- An iteration does not depend on how many characters its rule allows for. -/
theorem slotLoop_body (c : Cursor) (hn : c.skipBlanks.rest.length < n) (draft : SlotDraft)
    (s : Session σ) : (slotLoop read).body ⟨c, draft, s⟩ =
      (slotStep (n := n) read.rule c.skipBlanks hn draft s).pass := rfl

/-- The loop of an array comes to what its rounds come to. -/
theorem slotLoop_runs (c : Cursor) (hc : c.rest.length < n) (draft : SlotDraft) (s : Session σ) :
    ∃ k, (slotLoop read).Runs ⟨c, draft, s⟩ k (roundsEnd (slotStep read.rule) c hc draft s) := by
  unfold roundsEnd
  fun_induction rounds (slotStep read.rule) c hc draft s with
  | case1 c hc draft s hhalted => exact ⟨0, .exit (LoopState.halt?_of_halted hhalted)⟩
  | case2 c hc draft s hgo hblank hn last draft' closed t hstep =>
    have hbody := slotLoop_body read c hn draft s
    rw [hstep] at hbody
    exact ⟨1, .leave (LoopState.halt?_eq_none.mpr (by simpa using hgo)) hbody⟩
  | case3 c hc draft s hgo hblank hn next draft' t hstep hlt hn' last result hrest ih =>
    have hbody := slotLoop_body read c hn draft s
    rw [hstep] at hbody
    rw [hrest] at ih
    obtain ⟨k, hruns⟩ := ih
    exact ⟨k + 1, .again (LoopState.halt?_eq_none.mpr (by simpa using hgo)) hbody hruns⟩

/-- What comes after the loop of an array that starts at `c`: the problem of a missing bracket, and
the array. -/
def LoopEnd.array (c : Cursor) : LoopEnd σ SlotDraft → Value × Session σ
  | (last, draft, closed, s) =>
    let value := Value.array ⟨c.position, last.position⟩ draft.finish
    (value, (s.commitUnclosed closed .unclosedArray last.position).observe (.value value))

/-- An array is what its loop ends with. -/
theorem readArray_of_loop {c : Cursor} {rest : List Char} (hc : c.rest = '[' :: rest)
    {s : Session σ} {k : Nat} {e : LoopEnd σ SlotDraft}
    (h : (slotLoop read).Runs ⟨(c.next (Cursor.rest_ne_nil hc)).1, {}, s⟩ k e) :
    ∃ hlt, readArray c read.rule s =
      (some ((LoopEnd.array c e).1, ⟨e.1, hlt⟩), (LoopEnd.array c e).2) := by
  have hn := Cursor.length_lt_of_lt (c.next (Cursor.rest_ne_nil hc)).2
  obtain ⟨k', hruns⟩ := slotLoop_runs read _ hn {} s
  obtain ⟨-, rfl⟩ := hruns.unique h
  rw [roundsEnd, ← readSlots_eq_rounds]
  rw [readArray_of_bracket hc]
  rcases hread : readSlots read.rule (c.next (Cursor.rest_ne_nil hc)).1 hn {} s with
    ⟨last, draft, closed, t⟩
  simp only [hread]
  exact ⟨Cursor.lt_of_lt_of_le (c.next (Cursor.rest_ne_nil hc)).2 last.2, rfl⟩

end Slots

end DataTemplate
