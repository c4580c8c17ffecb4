/-
The loop of an object.  After a problem an iteration goes to the next delimiter and no further, and
it may be there already; it then waits for that delimiter, so that the next iteration takes it.  The
loop ends within a bound for that reason, and a value in an array or an object stands behind its
bracket.
Main statements: `Resynced.getsOn`, `propertyLoop_runs` and `readValue_loops_end`.
-/
import DataTemplate.Proofs.Loops
import DataTemplate.Proofs.PropertyRecovery

namespace DataTemplate

variable {σ : Type} {n : Nat}

/-! ### Iterations -/

/-- Where an object goes on after a problem at `c`: in front of the next delimiter, for which it
then waits. -/
def resync (c : Cursor) (draft : PropertyDraft) (s : Session σ) : LoopState σ PropertyDraft :=
  match nextDelimiter? draft.delimiters c with
  | none => ⟨c.toEnd, draft, s⟩
  | some landing =>
    if landing.delimiter = ':' then
      let (draft, s) := beginBeforeColon c landing.here draft s
      ⟨landing.here, { draft with awaited := .colon }, s⟩
    else ⟨landing.here, { draft with awaited := .commaOrEnd }, s⟩

/-- An iteration at a place without white space. -/
def propertyBody (read : ValueReader σ) (c : Cursor) (draft : PropertyDraft) (s : Session σ) :
    Pass (LoopState σ PropertyDraft) (LoopEnd σ PropertyDraft) :=
  if h : c.rest = [] then .leave (c, draft, false, s)
  else
    match c.comment? with
    | some d => .again ⟨d.1, draft, s.observeComment c d⟩
    | none =>
      match acceptToken read.rule c (Nat.lt_succ_self _) h draft s with
      | .ok round => round.pass
      | .error s =>
        let s := s.commit draft.awaited.missing c.position
        if s.halted then .leave (c, draft, false, s) else .again (resync c draft s)

/-- The loop of an object. -/
def propertyLoop (read : ValueReader σ) :
    Loop (LoopState σ PropertyDraft) (LoopEnd σ PropertyDraft) where
  exit := LoopState.halt?
  body a := propertyBody read a.place.skipBlanks a.draft a.session

section Iterations

variable (read : ValueReader σ) {c : Cursor} {x : Char} {rest : List Char} {draft : PropertyDraft}
  {s : Session σ}

/-- A round is one iteration, or one that ends in front of a delimiter and what comes of it. -/
theorem propertyStep_pass (hc : c.rest.length < n) (draft : PropertyDraft) (s : Session σ) :
    propertyBody read c draft s = (propertyStep (n := n) read.rule c hc draft s).pass ∨
    ∃ (hne : c.rest ≠ []) (u : Session σ), u.Recovering ∧ u.halted = false ∧
      propertyBody read c draft s = .again (resync c draft u) ∧
      propertyStep (n := n) read.rule c hc draft s = recoverProperty c hne draft u := by
  have haccept (hne : c.rest ≠ []) :
      acceptToken (n := c.rest.length + 1) read.rule c (Nat.lt_succ_self _) hne draft s =
        acceptToken (n := n) read.rule c hc hne draft s := rfl
  unfold propertyBody propertyStep
  split
  · exact .inl rfl
  · rename_i hne
    rw [haccept]
    cases c.comment? with
    | some d => exact .inl rfl
    | none =>
      cases acceptToken (n := n) read.rule c hc hne draft s with
      | ok round => exact .inl rfl
      | error t =>
        dsimp only
        cases hhalted : (t.commit draft.awaited.missing c.position).halted with
        | true => exact .inl rfl
        | false => exact .inr ⟨hne, _, Session.commit_recovering hhalted, hhalted, rfl, rfl⟩

/-- An iteration at a token that the object waits for takes it. -/
theorem propertyLoop_of_accept (hc : c.rest = x :: rest) (hblank : isBlank x = false) (hx : x ≠ '/')
    {round : Round σ PropertyDraft c}
    (haccept : acceptToken read.rule c (Nat.lt_succ_self _) (Cursor.rest_ne_nil hc) draft s =
      .ok round) : (propertyLoop read).body ⟨c, draft, s⟩ = round.pass := by
  have hcomment : c.comment? = none := Cursor.comment?_eq_none (by simpa [hc] using hx)
  change propertyBody read c.skipBlanks draft s = _
  rw [Cursor.skipBlanks_eq (head?_any_isBlank hc hblank), propertyBody,
    dif_neg (Cursor.rest_ne_nil hc), hcomment]
  simp only [haccept]

variable {d : Cursor}

theorem propertyLoop_colon (hd : c.Moves [':'] d) (hawaited : draft.awaited = .colon) :
    (propertyLoop read).body ⟨c, draft, s⟩ = .again ⟨d, draft.colon c.position, s⟩ := by
  obtain ⟨rest, hc⟩ : ∃ rest, c.rest = ':' :: rest := ⟨d.rest, hd.rest_eq⟩
  have haccept : acceptToken read.rule c (Nat.lt_succ_self _) (Cursor.rest_ne_nil hc) draft s =
      .ok (.again (c.next (Cursor.rest_ne_nil hc)) (draft.colon c.position) s) := by
    unfold acceptToken
    simp [hawaited, hc]
  rw [propertyLoop_of_accept read hc (by decide) (by decide) haccept,
    hd.unique (Cursor.moves_next hc)]
  rfl

theorem propertyLoop_comma (hd : c.Moves [','] d) (hawaited : draft.awaited = .commaOrEnd) :
    (propertyLoop read).body ⟨c, draft, s⟩ = .again ⟨d, draft.comma c.position, s⟩ := by
  obtain ⟨rest, hc⟩ : ∃ rest, c.rest = ',' :: rest := ⟨d.rest, hd.rest_eq⟩
  have haccept : acceptToken read.rule c (Nat.lt_succ_self _) (Cursor.rest_ne_nil hc) draft s =
      .ok (.again (c.next (Cursor.rest_ne_nil hc)) (draft.comma c.position) s) := by
    unfold acceptToken
    simp [hawaited, hc]
  rw [propertyLoop_of_accept read hc (by decide) (by decide) haccept,
    hd.unique (Cursor.moves_next hc)]
  rfl

theorem propertyLoop_close (hd : c.Moves ['\x7d'] d) (hawaited : draft.awaited = .commaOrEnd) :
    (propertyLoop read).body ⟨c, draft, s⟩ = .leave (d, draft, true, s) := by
  obtain ⟨rest, hc⟩ : ∃ rest, c.rest = '\x7d' :: rest := ⟨d.rest, hd.rest_eq⟩
  have haccept : acceptToken read.rule c (Nat.lt_succ_self _) (Cursor.rest_ne_nil hc) draft s =
      .ok (.stop ⟨(c.next (Cursor.rest_ne_nil hc)).1,
        Cursor.le_of_lt (c.next (Cursor.rest_ne_nil hc)).2⟩ draft true s) := by
    unfold acceptToken
    simp [hawaited, hc]
  rw [propertyLoop_of_accept read hc (by decide) (by decide) haccept,
    hd.unique (Cursor.moves_next hc)]
  rfl

end Iterations

/-! ### After a problem -/

theorem beginBeforeColon_grows (c colon : Cursor) (draft : PropertyDraft) (s : Session σ) :
    s.Grows (beginBeforeColon c colon draft s).2 := by
  have hkey : s.Grows (readKey c s).2 := Session.Grows.law.key (c := c) rfl
  unfold beginBeforeColon
  split
  · rename_i hread
    rw [hread] at hkey
    split
    · exact hkey.trans (Session.Grows.law.begin c draft _ _)
    · exact hkey.rollback.trans (Session.Grows.law.flush c draft _)
  · rename_i hread
    rw [hread] at hkey
    exact hkey.rollback.trans (Session.Grows.law.flush c draft _)

/-- A reading that goes on after problems is not halted by looking for a key. -/
theorem beginBeforeColon_going {s : Session σ} (hs : s.Recovering) (hgo : s.halted = false)
    (c colon : Cursor) (draft : PropertyDraft) :
    (beginBeforeColon c colon draft s).2.halted = false := by
  apply eq_false_of_ne_true
  intro hhalted
  rcases (beginBeforeColon_grows c colon draft s).going hhalted with h | h
  · simp [hgo] at h
  · simp [hs.goes_on] at h

theorem recoverProperty_before_colon {c : Cursor} {landing : Landing c} {draft : PropertyDraft}
    {s : Session σ} (hne : c.rest ≠ []) (hland : nextDelimiter? draft.delimiters c = some landing)
    (hcolon : landing.delimiter = ':') : recoverProperty c hne draft s =
      .again ⟨landing.after, landing.lt_after⟩
        ((beginBeforeColon c landing.here draft s).1.colon landing.here.position)
        (beginBeforeColon c landing.here draft s).2 := by
  unfold recoverProperty
  simp [hland, hcolon]

theorem PropertyDraft.mem_delimiters {draft : PropertyDraft} {x : Char}
    (h : x ∈ draft.delimiters) : x = ',' ∨ x = ':' ∨ x = '\x7d' := by
  unfold delimiters at h
  split at h <;> grind

/-- How the loop goes on after a problem at `c`, beside the round that takes in both iterations: the
text has no more delimiter, or the next iteration takes one and goes on, or it takes the closing
brace. -/
inductive Resynced (read : ValueReader σ) (c : Cursor) (hne : c.rest ≠ []) (draft : PropertyDraft)
    (s : Session σ) : Prop
  | lost (hstate : resync c draft s = ⟨c.toEnd, draft, s⟩)
      (hround : recoverProperty c hne draft s = .again ⟨c.toEnd, Cursor.lt_toEnd hne⟩ draft s)
  | taken {landing : Landing c} {draft' : PropertyDraft} {t : Session σ}
      (hplace : (resync c draft s).place = landing.here)
      (hgo : (resync c draft s).session.halted = false)
      (hbody : (propertyLoop read).body (resync c draft s) = .again ⟨landing.after, draft', t⟩)
      (hround : recoverProperty c hne draft s =
        .again ⟨landing.after, landing.lt_after⟩ draft' t)
  | closed {landing : Landing c} (hplace : (resync c draft s).place = landing.here)
      (hgo : (resync c draft s).session.halted = false)
      (hbody : (propertyLoop read).body (resync c draft s) =
        .leave (landing.after, { draft with awaited := .commaOrEnd }, true, s))
      (hround : recoverProperty c hne draft s =
        .stop ⟨landing.after, Cursor.le_of_lt landing.lt_after⟩ draft true s)

theorem resync_resynced (read : ValueReader σ) {c : Cursor} (hne : c.rest ≠ [])
    (draft : PropertyDraft) {s : Session σ} (hs : s.Recovering) (hgo : s.halted = false) :
    Resynced read c hne draft s := by
  cases hland : nextDelimiter? draft.delimiters c with
  | none =>
    refine .lost ?_ ?_
    · unfold resync
      simp [hland]
    · unfold recoverProperty
      simp [hland]
  | some landing =>
    have hpass := landing.pass
    rcases PropertyDraft.mem_delimiters (nextDelimiter?_delimiter_mem hland) with
      hcomma | hcolon | hclose
    · have hstate : resync c draft s =
          ⟨landing.here, { draft with awaited := .commaOrEnd }, s⟩ := by
        unfold resync
        simp [hland, hcomma]
      rw [hcomma] at hpass
      refine .taken (by rw [hstate]) (by rw [hstate]; exact hgo) ?_
        (recoverProperty_comma hne hland hcomma)
      rw [hstate]
      exact propertyLoop_comma read hpass rfl
    · have hstate : resync c draft s =
          ⟨landing.here, { (beginBeforeColon c landing.here draft s).1 with awaited := .colon },
            (beginBeforeColon c landing.here draft s).2⟩ := by
        unfold resync
        simp [hland, hcolon]
      rw [hcolon] at hpass
      refine .taken (by rw [hstate])
        (by rw [hstate]; exact beginBeforeColon_going hs hgo c landing.here draft) ?_
        (recoverProperty_before_colon hne hland hcolon)
      rw [hstate]
      exact propertyLoop_colon read hpass rfl
    · have hstate : resync c draft s =
          ⟨landing.here, { draft with awaited := .commaOrEnd }, s⟩ := by
        unfold resync
        simp [hland, hclose]
      rw [hclose] at hpass
      refine .closed (by rw [hstate]) (by rw [hstate]; exact hgo) ?_
        (recoverProperty_close hne hland hclose)
      rw [hstate]
      exact propertyLoop_close read hpass rfl

namespace Resynced

variable {read : ValueReader σ} {c : Cursor} {hne : c.rest ≠ []} {draft : PropertyDraft}
  {s : Session σ}

theorem le (h : Resynced read c hne draft s) : c ≤ (resync c draft s).place := by
  cases h with
  | lost hstate =>
    rw [hstate]
    exact c.le_toEnd
  | @taken landing _ _ hplace => exact hplace ▸ landing.reach
  | @closed landing hplace => exact hplace ▸ landing.reach

/-- Where the loop did not move on it does so in the next iteration, or it is left. -/
theorem getsOn (h : Resynced read c hne draft s) (hstuck : ¬ c < (resync c draft s).place) :
    (resync c draft s).session.halted = false ∧
      ∀ next, (propertyLoop read).body (resync c draft s) = .again next →
        (resync c draft s).place < next.place := by
  cases h with
  | lost hstate =>
    rw [hstate] at hstuck
    exact absurd (Cursor.lt_toEnd hne) hstuck
  | @taken landing draft' t hplace hgo hbody =>
    refine ⟨hgo, fun next hnext => ?_⟩
    obtain rfl := Pass.again.inj (hbody.symm.trans hnext)
    exact hplace ▸ landing.here_lt_after
  | closed hplace hgo hbody =>
    refine ⟨hgo, fun next hnext => ?_⟩
    rw [hbody] at hnext
    simp at hnext

end Resynced

/-! ### Progress -/

section Progress

variable (read : ValueReader σ) {a next : LoopState σ PropertyDraft}

/-- An iteration moves on, or goes on where `resync` says. -/
theorem propertyLoop_again (h : (propertyLoop read).body a = .again next) :
    a.place < next.place ∨ ∃ hne u,
      Resynced read a.place.skipBlanks hne a.draft u ∧
        next = resync a.place.skipBlanks a.draft u := by
  rcases propertyStep_pass read (Nat.lt_succ_self a.place.skipBlanks.rest.length) a.draft a.session
    with hpass | ⟨hne, u, hu, hgo, hbody, -⟩
  · exact .inl (Cursor.lt_of_le_of_lt a.place.le_skipBlanks
      (Round.lt_of_pass (hpass.symm.trans h)))
  · exact .inr ⟨hne, u, resync_resynced read hne a.draft hu hgo,
      Pass.again.inj (h.symm.trans hbody)⟩

/-- No iteration goes back. -/
theorem propertyLoop_le (h : (propertyLoop read).body a = .again next) : a.place ≤ next.place := by
  rcases propertyLoop_again read h with hlt | ⟨hne, u, hresynced, rfl⟩
  · exact Cursor.le_of_lt hlt
  · exact Cursor.le_trans a.place.le_skipBlanks hresynced.le

/-- An iteration that does not move on is followed by one that does, or that leaves the loop. -/
theorem propertyLoop_pause (h : (propertyLoop read).body a = .again next)
    (hstuck : ¬ a.place < next.place) : next.session.halted = false ∧
      ∀ after, (propertyLoop read).body next = .again after → next.place < after.place := by
  rcases propertyLoop_again read h with hlt | ⟨hne, u, hresynced, rfl⟩
  · exact absurd hlt hstuck
  · exact hresynced.getsOn fun hlt => hstuck (Cursor.lt_of_le_of_lt a.place.le_skipBlanks hlt)

theorem propertyLoop_endsWithin (a : LoopState σ PropertyDraft) :
    (propertyLoop read).EndsWithin a (2 * a.remaining + 2) := by
  have hle (a next : LoopState σ PropertyDraft) (_ : (propertyLoop read).exit a = none)
      (h : (propertyLoop read).body a = .again next) : next.remaining ≤ a.remaining :=
    LoopState.remaining_le (propertyLoop_le read h)
  refine Loop.runs_of_pauses hle ?_ a
  intro a next _ h hstuck
  obtain ⟨hgo, hnext⟩ := propertyLoop_pause read h fun hlt => hstuck (LoopState.remaining_lt hlt)
  exact ⟨LoopState.halt?_eq_none.mpr hgo, fun after hafter =>
    LoopState.remaining_lt (hnext after hafter)⟩

end Progress

/-! ### Rounds -/

/-- The end of an object; what it waited for at its closing brace makes no difference. -/
def LoopEnd.settle : LoopEnd σ PropertyDraft → LoopEnd σ PropertyDraft
  | (last, draft, true, s) => (last, { draft with awaited := .commaOrEnd }, true, s)
  | (last, draft, false, s) => (last, draft, false, s)

/-- The loop of an object comes to what its rounds come to. -/
theorem propertyLoop_runs (read : ValueReader σ) (c : Cursor) (hc : c.rest.length < n)
    (draft : PropertyDraft) (s : Session σ) :
    ∃ k answer, (propertyLoop read).Runs ⟨c, draft, s⟩ k answer ∧
      LoopEnd.settle answer = LoopEnd.settle (roundsEnd (propertyStep read.rule) c hc draft s) := by
  unfold roundsEnd
  fun_induction rounds (propertyStep read.rule) c hc draft s with
  | case1 c hc draft s hhalted => exact ⟨0, _, .exit (LoopState.halt?_of_halted hhalted), rfl⟩
  | case2 c hc draft s hgo hblank hn last draft' closed t hstep =>
    have hexit : (propertyLoop read).exit ⟨c, draft, s⟩ = none :=
      LoopState.halt?_eq_none.mpr (by simpa using hgo)
    rcases propertyStep_pass read hn draft s with hpass | ⟨hne, u, hu, hgoing, hbody, hround⟩
    · rw [hstep] at hpass
      exact ⟨1, _, .leave hexit hpass, rfl⟩
    · have hstop := hround.symm.trans hstep
      cases resync_resynced read hne draft hu hgoing with
      | lost _ hround | taken _ _ _ hround => simp [hstop] at hround
      | closed _ hgo hnext hround =>
        obtain ⟨rfl, rfl, rfl, rfl⟩ := Round.stop.inj (hstop.symm.trans hround)
        exact ⟨2, _, .again hexit hbody (.leave (LoopState.halt?_eq_none.mpr hgo) hnext), rfl⟩
  | case3 c hc draft s hgo hblank hn next draft' t hstep hlt hn' last result hrest ih =>
    have hexit : (propertyLoop read).exit ⟨c, draft, s⟩ = none :=
      LoopState.halt?_eq_none.mpr (by simpa using hgo)
    rw [hrest] at ih
    obtain ⟨k, answer, hruns, hanswer⟩ := ih
    rcases propertyStep_pass read hn draft s with hpass | ⟨hne, u, hu, hgoing, hbody, hround⟩
    · rw [hstep] at hpass
      exact ⟨k + 1, answer, .again hexit hpass hruns, hanswer⟩
    · have hagain := hround.symm.trans hstep
      cases resync_resynced read hne draft hu hgoing with
      | lost hstate hround =>
        obtain ⟨rfl, rfl, rfl⟩ := Round.again.inj (hagain.symm.trans hround)
        rw [hstate] at hbody
        exact ⟨k + 1, answer, .again hexit hbody hruns, hanswer⟩
      | taken _ hgo hnext hround =>
        obtain ⟨rfl, rfl, rfl⟩ := Round.again.inj (hagain.symm.trans hround)
        exact ⟨k + 2, answer,
          .again hexit hbody (.again (LoopState.halt?_eq_none.mpr hgo) hnext hruns), hanswer⟩
      | closed _ _ _ hround => simp [hagain] at hround

theorem PropertyDraft.flush_congr {draft draft' : PropertyDraft}
    (hfinished : draft.finished = draft'.finished) (hcurrent : draft.current = draft'.current)
    (s : Session σ) : (draft.flush s).1.finished = (draft'.flush s).1.finished ∧
      (draft.flush s).2 = (draft'.flush s).2 := by
  unfold flush
  rw [hcurrent]
  cases draft'.current with
  | none => exact ⟨hfinished, rfl⟩
  | some p => exact ⟨by simp [hfinished], rfl⟩

/-- What comes after the loop of an object that starts at `c`: the problem of a missing brace, and
the object with its last property. -/
def LoopEnd.object (c : Cursor) : LoopEnd σ PropertyDraft → Value × Session σ
  | (last, draft, closed, s) =>
    let (draft, s) := draft.flush (s.commitUnclosed closed draft.awaited.missing last.position)
    let value := Value.object ⟨c.position, last.position⟩ draft.finished.toList
    (value, s.observe (.value value))

theorem LoopEnd.object_settle (c : Cursor) (e : LoopEnd σ PropertyDraft) :
    LoopEnd.object c (LoopEnd.settle e) = LoopEnd.object c e := by
  obtain ⟨last, draft, closed, s⟩ := e
  cases closed with
  | false => rfl
  | true =>
    let settled : PropertyDraft := { draft with awaited := .commaOrEnd }
    have hfinished : settled.finished = draft.finished := rfl
    obtain ⟨hproperties, hsession⟩ := PropertyDraft.flush_congr hfinished rfl s
    simp only [LoopEnd.settle, LoopEnd.object, Session.commitUnclosed_closed]
    rw [hproperties, hsession]

theorem LoopEnd.last_settle (e : LoopEnd σ PropertyDraft) : (LoopEnd.settle e).1 = e.1 := by
  obtain ⟨last, draft, closed, s⟩ := e
  cases closed <;> rfl

/-- An object is what its loop ends with. -/
theorem readObject_of_loop (read : ValueReader σ) {c : Cursor} {rest : List Char}
    (hc : c.rest = '\x7b' :: rest) (hbrace : rest.head? ≠ some '\x7b') {s : Session σ} {k : Nat}
    {e : LoopEnd σ PropertyDraft}
    (h : (propertyLoop read).Runs ⟨(c.next (Cursor.rest_ne_nil hc)).1, {}, s⟩ k e) :
    ∃ hlt, readObject c read.rule s =
      (some ((LoopEnd.object c e).1, ⟨e.1, hlt⟩), (LoopEnd.object c e).2) := by
  have hn := Cursor.length_lt_of_lt (c.next (Cursor.rest_ne_nil hc)).2
  obtain ⟨k', answer, hruns, hsettle⟩ := propertyLoop_runs read _ hn {} s
  obtain ⟨-, rfl⟩ := hruns.unique h
  rw [← LoopEnd.object_settle, hsettle, LoopEnd.object_settle]
  have hlast := congrArg Prod.fst hsettle
  rw [LoopEnd.last_settle, LoopEnd.last_settle] at hlast
  rw [hlast, roundsEnd, ← readProperties_eq_rounds]
  rw [readObject_of_brace hc hbrace]
  rcases hread : readProperties read.rule (c.next (Cursor.rest_ne_nil hc)).1 hn {} s with
    ⟨last, draft, closed, t⟩
  simp only [hread]
  exact ⟨Cursor.lt_of_lt_of_le (c.next (Cursor.rest_ne_nil hc)).2 last.2, rfl⟩

/-! ### Nested values -/

section Nested

variable {δ : Type}

theorem slotStep_congr {rule rule' : ValueRule σ n} {c : Cursor} {hc : c.rest.length < n}
    {s : Session σ} (h : rule c hc s = rule' c hc s) (draft : SlotDraft) :
    slotStep rule c hc draft s = slotStep rule' c hc draft s := by
  unfold slotStep
  simp only [h]

theorem propertyStep_congr {rule rule' : ValueRule σ n} {c : Cursor} {hc : c.rest.length < n}
    {s : Session σ} (h : rule c hc s = rule' c hc s) (draft : PropertyDraft) :
    propertyStep rule c hc draft s = propertyStep rule' c hc draft s := by
  unfold propertyStep acceptToken
  simp only [h]

/-- Rounds see nothing of a step but what it does at their first place or later. -/
theorem rounds_congr {step step' : RoundStep σ δ n} {start : Cursor}
    (h : ∀ ⦃c⦄ (hc : c.rest.length < n) draft s, start ≤ c →
      step c hc draft s = step' c hc draft s)
    {c : Cursor} (hle : start ≤ c) (hc : c.rest.length < n) (draft : δ) (s : Session σ) :
    rounds step c hc draft s = rounds step' c hc draft s := by
  fun_induction rounds step c hc draft s with
  | case1 c hc draft s hhalted => rw [rounds, if_pos hhalted]
  | case2 c hc draft s hgo hblank hn last draft' closed t hstep =>
    rw [h hn draft s (Cursor.le_trans hle hblank)] at hstep
    rw [rounds, if_neg hgo]
    simp only [hstep]
  | case3 c hc draft s hgo hblank hn next draft' t hstep hlt hn' last result hrest ih =>
    rw [h hn draft s (Cursor.le_trans hle hblank)] at hstep
    rw [rounds, if_neg hgo]
    simp only [hstep, ← ih (Cursor.le_trans hle (Cursor.le_of_lt hlt)), hrest]

/-- Two readers agree on what stands behind a place. -/
def AgreeBehind (c : Cursor) (read read' : ValueReader σ) : Prop :=
  ∀ d s, c.position < d.position → read d s = read' d s

variable {read read' : ValueReader σ} {c : Cursor}

theorem AgreeBehind.rule (h : AgreeBehind c read read') {inner d : Cursor} (hinner : c < inner)
    (hd : inner ≤ d) (hn : d.rest.length < n) (s : Session σ) :
    read.rule (n := n) d hn s = read'.rule d hn s :=
  h d s (Cursor.position_lt_of_lt (Cursor.lt_of_lt_of_le hinner hd))

theorem readArray_congr (h : AgreeBehind c read read') (s : Session σ) :
    readArray c read.rule s = readArray c read'.rule s := by
  unfold readArray
  split
  · rename_i rest hrest
    have hslots (hn : (c.next (Cursor.rest_ne_nil hrest)).1.rest.length < c.rest.length) :
        readSlots read.rule _ hn {} s = readSlots read'.rule _ hn {} s := by
      rw [readSlots_eq_rounds, readSlots_eq_rounds]
      refine rounds_congr (fun d hd draft t hle => slotStep_congr ?_ draft) (Cursor.le_refl _)
        hn {} s
      exact h.rule (c.next (Cursor.rest_ne_nil hrest)).2 hle hd t
    simp only [hslots]
  · rfl

theorem readObject_congr (h : AgreeBehind c read read') (s : Session σ) :
    readObject c read.rule s = readObject c read'.rule s := by
  unfold readObject
  split
  · rename_i rest hrest
    have hproperties (hn : (c.next (Cursor.rest_ne_nil hrest)).1.rest.length < c.rest.length) :
        readProperties read.rule _ hn {} s = readProperties read'.rule _ hn {} s := by
      rw [readProperties_eq_rounds, readProperties_eq_rounds]
      refine rounds_congr (fun d hd draft t hle => propertyStep_congr ?_ draft) (Cursor.le_refl _)
        hn {} s
      exact h.rule (c.next (Cursor.rest_ne_nil hrest)).2 hle hd t
    simp only [hproperties]
  · rfl

/-- Read the value here, with a reader for the values in it. -/
def readValueWith (read : ValueReader σ) : ValueReader σ := fun c s =>
  orElse (readText c s) (fun (text, d) => (Value.text text, d)) fun s =>
    orElse (readExpression c s) (fun (e, d) => (Value.expression e, d)) fun s =>
      orElse (readArray c read.rule s) id fun s =>
        orElse (readObject c read.rule s) id fun s =>
          orElse (readScalar c s) (fun (scalar, d) => (Value.scalar scalar, d)) fun s => (none, s)

/-- The values in a value stand behind the place where it starts. -/
theorem readValueWith_congr (h : AgreeBehind c read read') (s : Session σ) :
    readValueWith read c s = readValueWith read' c s := by
  unfold readValueWith
  simp only [readArray_congr h, readObject_congr h]

end Nested

/-! ### All loops -/

/-- All loops of a reader end, and they are what the reader does: the loop of an object, which gets
on in one of two iterations, the loop of an array and the walk to the next delimiter, which get on
in each, and the nesting of values, which stand behind the place where the outer value starts. -/
structure LoopsEnd (read : ValueReader σ) : Prop where
  object_pause : ∀ a next, (propertyLoop read).exit a = none →
    (propertyLoop read).body a = .again next → ¬ a.place.position < next.place.position →
    (propertyLoop read).exit next = none ∧ ∀ after, (propertyLoop read).body next = .again after →
      next.place.position < after.place.position
  object_ends : ∀ a, (propertyLoop read).EndsWithin a (2 * byteLength a.place.rest + 2)
  object_eq : ∀ (c : Cursor) (rest : List Char) (hc : c.rest = '\x7b' :: rest),
    rest.head? ≠ some '\x7b' → ∀ (s : Session σ) (k : Nat) (e : LoopEnd σ PropertyDraft),
    (propertyLoop read).Runs ⟨(c.next (Cursor.rest_ne_nil hc)).1, {}, s⟩ k e →
    ∃ hlt, readObject c read.rule s =
      (some ((LoopEnd.object c e).1, ⟨e.1, hlt⟩), (LoopEnd.object c e).2)
  array_advances : ∀ a next, (slotLoop read).exit a = none →
    (slotLoop read).body a = .again next → a.place.position + 1 ≤ next.place.position
  array_ends : ∀ a, (slotLoop read).EndsWithin a (byteLength a.place.rest + 1)
  array_eq : ∀ (c : Cursor) (rest : List Char) (hc : c.rest = '[' :: rest) (s : Session σ) (k : Nat)
    (e : LoopEnd σ SlotDraft),
    (slotLoop read).Runs ⟨(c.next (Cursor.rest_ne_nil hc)).1, {}, s⟩ k e →
    ∃ hlt, readArray c read.rule s =
      (some ((LoopEnd.array c e).1, ⟨e.1, hlt⟩), (LoopEnd.array c e).2)
  walk_advances : ∀ delimiters c d, (delimiterLoop delimiters).body c = .again d →
    c.position + 1 ≤ d.position
  walk_ends : ∀ delimiters c, (delimiterLoop delimiters).EndsWithin c (byteLength c.rest + 1)
  walk_eq : ∀ delimiters c k answer, (delimiterLoop delimiters).Runs c k answer →
    answer = (nextDelimiter? delimiters c).map fun landing => ([landing.delimiter], landing.here)
  nested : ∀ (c : Cursor) (other : ValueReader σ), (∀ d s, c.position < d.position →
    read d s = other d s) → ∀ s, readValueWith read c s = readValueWith other c s

theorem ValueReader.loopsEnd (read : ValueReader σ) : LoopsEnd read where
  object_pause a next hexit h hstuck := by
    obtain ⟨hgo, hnext⟩ := propertyLoop_pause read h fun hlt =>
      hstuck (Cursor.position_lt_of_lt hlt)
    exact ⟨LoopState.halt?_eq_none.mpr hgo, fun after hafter =>
      Cursor.position_lt_of_lt (hnext after hafter)⟩
  object_ends := propertyLoop_endsWithin read
  object_eq _ _ hc hbrace _ _ _ h := readObject_of_loop read hc hbrace h
  array_advances a next _ h := Cursor.position_lt_of_lt (slotLoop_lt read h)
  array_ends := Loop.runs_of_advances fun a next _ h => LoopState.remaining_lt (slotLoop_lt read h)
  array_eq _ _ hc _ _ _ h := readArray_of_loop read hc h
  walk_advances _ _ _ h := Cursor.position_lt_of_lt (delimiterLoop_lt h)
  walk_ends _ := Loop.runs_of_advances fun _ _ _ h => Cursor.byteLength_rest_lt (delimiterLoop_lt h)
  walk_eq _ _ _ _ h := delimiterLoop_answer h
  nested _ _ h s := readValueWith_congr h s

/-- The loops of the reader end on every text, from every place and with every session, and a value
is read by these loops with the same reader for the values in it. -/
theorem readValue_loops_end : LoopsEnd (σ := σ) readValue ∧
    ∀ (c : Cursor) (s : Session σ), readValue c s = readValueWith readValue c s :=
  ⟨ValueReader.loopsEnd readValue, readValue_eq⟩

end DataTemplate
