/-
Keys that are given up.  A reading that goes on after a problem in an object tries a key in front of
the next colon, and goes back if the key passes the colon; the host is not told, and may be asked about
an expression of that key again.  Apart from these attempts it is asked once about each expression that
is kept.  Main statements: `readDocument_questions` and `Questions.nodup_iff`.
-/
import DataTemplate.Proofs.HostCalls
import Mathlib.Data.List.Nodup

namespace DataTemplate

variable {σ : Type}

/-- What the host was asked for a key that was given up, at or behind `start`: the reading goes on
after a problem and comes to a colon, and the key that it tries does not end in front of it. -/
def KeyGivenUp (hooks : Hooks σ) (start : Cursor) (asked : List Call) : Prop :=
  ∃ c s landing, start ≤ c ∧ s.hooks = hooks.logging ∧ s.Recovering ∧
    nextDelimiter? [',', ':', '}'] c = some landing ∧ landing.delimiter = ':' ∧
    KeyPasses c landing.here s ∧ (readKey c s).2.state.2 = s.state.2 ++ asked

theorem KeyGivenUp.mono {hooks : Hooks σ} {c d : Cursor} {asked : List Call} (hle : c ≤ d)
    (h : KeyGivenUp hooks d asked) : KeyGivenUp hooks c asked := by
  obtain ⟨e, s, landing, he, hrest⟩ := h
  exact ⟨e, s, landing, Cursor.le_trans hle he, hrest⟩

/-! ### Kept expressions and attempts -/

/-- From `c` on the host was `asked`: it was `told` of each expression that was added and that no
earlier scan had met, and it was asked about some more in `attempts` that were given up. -/
structure Session.Settles (hooks : Hooks σ) (c : Cursor) (s t : Session (σ × List Call))
    (asked : List Call) (added : List Expression) (told : List Call) (attempts : List (List Call)) :
    Prop where
  perm : asked.Perm (told ++ attempts.flatten)
  told : told.map Call.bodySpan =
    (added.map Expression.bodySpan).filter fun span => (s.earlier? span).isNone
  givenUp : ∀ attempt ∈ attempts, KeyGivenUp hooks c attempt
  recovering : attempts ≠ [] → t.Recovering

namespace Session.Settles

variable {hooks : Hooks σ} {c d : Cursor} {s t u : Session (σ × List Call)}
  {asked others told more : List Call} {added later : List Expression}
  {attempts others' : List (List Call)}

theorem nil (hooks : Hooks σ) (c : Cursor) (s t : Session (σ × List Call)) :
    Session.Settles hooks c s t [] [] [] [] where
  perm := .refl _
  told := rfl
  givenUp := by simp
  recovering := by simp

theorem trans (hcd : c ≤ d) (hst : s.Grows t) (htu : t.Grows u)
    (h : Session.Settles hooks c s t asked added told attempts)
    (k : Session.Settles hooks d t u others later more others') :
    Session.Settles hooks c s u (asked ++ others) (added ++ later) (told ++ more)
      (attempts ++ others') where
  perm := by
    rw [List.flatten_append]
    refine (h.perm.append k.perm).trans ?_
    rw [List.append_assoc, List.append_assoc]
    refine List.Perm.append_left told ?_
    rw [← List.append_assoc, ← List.append_assoc]
    exact List.perm_append_comm.append_right _
  told := by
    have hsame : t.earlier? = s.earlier? := earlier?_of_grows hst
    rw [List.map_append, List.map_append, List.filter_append, h.told, k.told, hsame]
  givenUp := List.forall_mem_append.mpr
    ⟨h.givenUp, fun attempt hattempt => (k.givenUp attempt hattempt).mono hcd⟩
  recovering hne := by
    rcases not_and_or.mp (mt List.append_eq_nil_iff.mpr hne) with hfirst | hsecond
    · exact (h.recovering hfirst).of_grows htu
    · exact k.recovering hsecond

end Session.Settles

/-! ### Readings -/

/-- With a host that logs, a reading asks about what it adds, and about keys that it gives up, if it
may give up any. -/
def Session.SettlesBetween (hooks : Hooks σ) (givesUp : Prop) (c : Cursor)
    (s : Session (σ × List Call)) (d : Cursor) (t : Session (σ × List Call)) : Prop :=
  s.hooks = hooks.logging → c ≤ d ∧ s.Grows t ∧ ∃ asked added told attempts,
    Session.Asks c s d t asked added ∧
    Session.Settles hooks c s t asked added told attempts ∧ (attempts ≠ [] → givesUp)

namespace Session

theorem settlesBetween_leafLaw (hooks : Hooks σ) (givesUp : Prop) :
    Session.LeafLaw (Session.SettlesBetween hooks givesUp) where
  move h s _ := ⟨h, .refl s, [], [], [], [], .quiet h rfl rfl, .nil hooks _ s s, by simp⟩
  trans {c d e s t u} h k hs := by
    obtain ⟨hcd, hst, _, _, _, _, hasks, hsettles, hgives⟩ := h hs
    obtain ⟨hde, htu, _, _, _, _, hasks', hsettles', hgives'⟩ := k (hst.hooks_eq.trans hs)
    refine ⟨Cursor.le_trans hcd hde, hst.trans htu, _, _, _, _, hasks.trans hcd hst htu hasks',
      hsettles.trans hcd hst htu hsettles', fun hne => ?_⟩
    exact (not_and_or.mp (mt List.append_eq_nil_iff.mpr hne)).elim hgives hgives'
  observe c s node hs := ⟨c.le_refl, .observe s node, [], [], [], [], .observe hs c node,
    .nil hooks c s _, by simp⟩
  commit c s cause position _ := ⟨c.le_refl, .commit s cause position, [], [], [], [],
    .commit c s cause position, .nil hooks c s _, by simp⟩
  finish s c e d hscan hs := by
    obtain ⟨asked, added, hasks, hasked⟩ := Asks.finish hs hscan
    refine ⟨Cursor.le_of_lt d.2, .finishExpression s e, asked, added, asked, [], hasks, ?_, by simp⟩
    exact { perm := by simp, told := hasked, givenUp := by simp, recovering := by simp }

theorem settlesBetween_law (hooks : Hooks σ) :
    Session.Law (Session.SettlesBetween hooks True) where
  toLeafLaw := settlesBetween_leafLaw hooks True
  rollback {c s landing} hrecovering hland hdelimiter hpasses hkey hs := by
    obtain ⟨-, hgrows, asked, added, told, attempts, hasks, -, -⟩ := hkey hs
    have hle := Cursor.le_of_lt landing.lt_after
    have hgivenUp : KeyGivenUp hooks c asked :=
      ⟨c, s, landing, c.le_refl, hs, hrecovering, hland, hdelimiter, hpasses, hasks.calls⟩
    refine ⟨hle, hgrows.rollback, asked, [], [], [asked], hasks.rollback hrecovering hgrows hle, ?_,
      fun _ => trivial⟩
    exact {
      perm := by simp
      told := rfl
      givenUp := by simpa using hgivenUp
      recovering := fun _ => hrecovering.of_grows hgrows.rollback }

theorem Settles.nodup_told {hooks : Hooks σ} {c d : Cursor} {s t : Session (σ × List Call)}
    {asked told : List Call} {added : List Expression} {attempts : List (List Call)}
    (h : Session.Settles hooks c s t asked added told attempts)
    (hasks : Session.Asks c s d t asked added) : (told.map Call.bodySpan).Nodup := by
  rw [h.told]
  exact hasks.nodup_added.filter _

end Session

/-- For one key the host is asked about no place twice. -/
theorem KeyGivenUp.nodup {hooks : Hooks σ} {start : Cursor} {asked : List Call}
    (h : KeyGivenUp hooks start asked) : (asked.map Call.bodySpan).Nodup := by
  obtain ⟨c, s, landing, -, hs, -, -, -, -, hcalls⟩ := h
  obtain ⟨-, -, asked', added, told, attempts, hasks, hsettles, hgives⟩ :=
    (Session.settlesBetween_leafLaw hooks False).key (c := c) (s := s) rfl hs
  -- a key has no object in it in which a key could be given up
  obtain rfl : attempts = [] := Classical.not_not.mp hgives
  obtain rfl : asked' = asked := List.append_cancel_left (hasks.calls.symm.trans hcalls)
  have hperm : asked'.Perm told := by simpa using hsettles.perm
  exact (hperm.map _).nodup_iff.mpr (hsettles.nodup_told hasks)

/-! ### Documents -/

/-- The calls of a reading: of each expression that it keeps the host is `told` once, and it is asked
about some places in `attempts` at keys that were given up. -/
structure Questions (hooks : Hooks σ) (source : List Char) (calls told : List Call)
    (attempts : List (List Call)) : Prop where
  perm : calls.Perm (told ++ attempts.flatten)
  told_once : (told.map Call.bodySpan).Nodup
  givenUp : ∀ attempt ∈ attempts, KeyGivenUp hooks (.ofText source) attempt

/-- No place is asked about twice exactly if the keys that were given up have no expression in common
with each other, and none with what is kept. -/
theorem Questions.nodup_iff {hooks : Hooks σ} {source : List Char} {calls told : List Call}
    {attempts : List (List Call)} (h : Questions hooks source calls told attempts) :
    (calls.map Call.bodySpan).Nodup ↔
      attempts.Pairwise (fun a b =>
        List.Disjoint (a.map Call.bodySpan) (b.map Call.bodySpan)) ∧
      ∀ attempt ∈ attempts,
        List.Disjoint (told.map Call.bodySpan) (attempt.map Call.bodySpan) := by
  have honce : ∀ spans ∈ attempts.map (List.map Call.bodySpan), spans.Nodup :=
    List.forall_mem_map.mpr fun attempt hattempt => (h.givenUp attempt hattempt).nodup
  rw [(h.perm.map _).nodup_iff, List.map_append, List.nodup_append', List.map_flatten,
    List.nodup_flatten, List.pairwise_map]
  constructor
  · rintro ⟨-, ⟨-, hapart⟩, htold⟩
    refine ⟨hapart, fun attempt hattempt span hkept hasked => htold hkept ?_⟩
    exact List.mem_flatten_of_mem (List.mem_map_of_mem hattempt) hasked
  · rintro ⟨hapart, htold⟩
    refine ⟨h.told_once, ⟨honce, hapart⟩, fun span hkept hasked => ?_⟩
    obtain ⟨spans, hspans, hspan⟩ := List.mem_flatten.mp hasked
    obtain ⟨attempt, hattempt, rfl⟩ := List.mem_map.mp hspans
    exact htold attempt hattempt hkept hspan

section Documents

variable (options : ReadOptions) (hooks : Hooks σ) (state : σ) (source : List Char)

theorem notedSession_questions : ∃ told attempts,
    Questions hooks source (notedSession options hooks.logging (state, []) source).state.2 told
      attempts ∧
    told.map Call.bodySpan = (notedSession options hooks.logging (state, [])
      source).expressions.toList.map Expression.bodySpan ∧
    (attempts ≠ [] → options.onError = .recover) := by
  obtain ⟨d, t, hlaw, hgrows, ⟨problems, hnoted⟩, hrecovers⟩ :=
    notedSession_follows options hooks.logging (state, []) source
      (Session.settlesBetween_law hooks)
  obtain ⟨-, -, asked, added, told, attempts, hasks, hsettles, -⟩ := hlaw rfl
  have hcalls : t.state.2 = asked := hasks.calls
  have hadded : t.expressions.toList = added := hasks.expressions
  refine ⟨told, attempts, ?_, ?_, fun hne => (hrecovers (hsettles.recovering hne)).1⟩
  · rw [hnoted]
    exact ⟨hcalls ▸ hsettles.perm, hsettles.nodup_told hasks, hsettles.givenUp⟩
  · have hfirst (span : Span) : (Session.start hooks.logging (state, [])
        options.onError.halts).earlier? span = none := rfl
    rw [hnoted, hadded, hsettles.told]
    simp [hfirst]

/-- Of each expression that a document keeps the host is told once, and apart from that it is asked
only about keys that were given up, under the policy that recovers. -/
theorem readDocument_questions : ∃ told attempts,
    Questions hooks source (readDocument options hooks.logging (state, []) source).2.2 told
      attempts ∧
    (attempts ≠ [] → options.onError = .recover) ∧
    ∀ document, (readDocument options hooks.logging (state, []) source).1 = .ok document →
      document.readAsString = false →
        told.map Call.bodySpan = document.expressions.map Expression.bodySpan := by
  obtain ⟨told, attempts, hquestions, hkept, hpolicy⟩ :=
    notedSession_questions options hooks state source
  have hread := readDocument_read options hooks.logging (state, []) source
  generalize readDocument options hooks.logging (state, []) source = outcome at hread ⊢
  cases hread with
  | asValue =>
    refine ⟨told, attempts, hquestions, hpolicy, fun document hdocument _ => ?_⟩
    obtain rfl := Except.ok.inj hdocument
    exact hkept
  | failed => exact ⟨told, attempts, hquestions, hpolicy, by simp⟩
  | asString hrereads =>
    have honce := (rereadText_told options hooks state source hrereads).2
    refine ⟨_, [], ⟨by simp, honce, by simp⟩, by simp, fun document hdocument hvalue => ?_⟩
    obtain rfl := Except.ok.inj hdocument
    simp at hvalue

end Documents

end DataTemplate
