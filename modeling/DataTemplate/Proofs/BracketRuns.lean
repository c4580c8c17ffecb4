/-
Balanced bracket runs beside their grammar.  A group is an opener, items and the closer of its pair;
an item is a hidden character, a group or a character of no account.  The machine that matches
closers against a stack takes exactly the groups, one of which at most starts a text.  Main
statements: `closeRun_item`, `closes_of_closeRun` and `Cursor.takeBalanced_iff`.
-/
import DataTemplate.Proofs.Recovery

namespace DataTemplate

/-! ### The grammar -/

/-- What stands between the brackets of a group, item by item. -/
inductive BracketItem (pairs : List (Char × Char)) (escapes : List Char) : List Char → Prop
  | escaped {e : Char} (he : e ∈ escapes) (x : Char) : BracketItem pairs escapes [e, x]
  | group {opener closer : Char} {items : List (List Char)} (hpair : (opener, closer) ∈ pairs)
      (hitems : ∀ item ∈ items, BracketItem pairs escapes item) :
      BracketItem pairs escapes (opener :: (items.flatten ++ [closer]))
  | plain {x : Char} (hopener : ∀ pair ∈ pairs, x ≠ pair.1) (hcloser : ∀ pair ∈ pairs, x ≠ pair.2)
      (hescape : x ∉ escapes) : BracketItem pairs escapes [x]

/-- An opener, items, and the closer that belongs to the opener. -/
inductive BracketGroup (pairs : List (Char × Char)) (escapes : List Char) : List Char → Prop
  | mk {opener closer : Char} {items : List (List Char)} (hpair : (opener, closer) ∈ pairs)
      (hitems : ∀ item ∈ items, BracketItem pairs escapes item) :
      BracketGroup pairs escapes (opener :: (items.flatten ++ [closer]))

/-- No two pairs have the same opener, and no character plays two of the three parts. -/
structure BracketsApart (pairs : List (Char × Char)) (escapes : List Char) : Prop where
  openers : pairs.Pairwise fun pair other => pair.1 ≠ other.1
  opener_ne_closer : ∀ pair ∈ pairs, ∀ other ∈ pairs, pair.1 ≠ other.2
  escape_ne : ∀ e ∈ escapes, ∀ pair ∈ pairs, e ≠ pair.1 ∧ e ≠ pair.2

variable {pairs : List (Char × Char)} {escapes : List Char}

theorem closerOf?_mem {c closer : Char} (h : closerOf? pairs c = some closer) :
    (c, closer) ∈ pairs := by
  obtain ⟨pair, hpair, rfl⟩ := Option.map_eq_some_iff.mp h
  have hc : pair.1 = c := by simpa using List.find?_some hpair
  rw [← hc]
  exact List.mem_of_find?_eq_some hpair

theorem closerOf?_eq_none_iff {c : Char} :
    closerOf? pairs c = none ↔ ∀ pair ∈ pairs, c ≠ pair.1 := by
  rw [closerOf?, Option.map_eq_none_iff, List.find?_eq_none]
  simp only [beq_iff_eq]
  exact forall₂_congr fun _ _ => not_congr eq_comm

theorem isCloser_iff {c : Char} : isCloser pairs c = true ↔ ∃ pair ∈ pairs, c = pair.2 := by
  simp only [isCloser, List.any_eq_true, beq_iff_eq]
  exact exists_congr fun _ => and_congr_right fun _ => eq_comm

namespace BracketsApart

variable (h : BracketsApart pairs escapes) {opener closer : Char}

include h

theorem closerOf?_eq (hpair : (opener, closer) ∈ pairs) : closerOf? pairs opener = some closer := by
  have hopeners := h.openers
  clear h
  induction pairs with
  | nil => simp at hpair
  | cons pair pairs ih =>
    obtain ⟨hpairs, hrest⟩ := List.pairwise_cons.mp hopeners
    rcases List.mem_cons.mp hpair with rfl | hlater
    · simp [closerOf?]
    · have hne : pair.1 ≠ opener := hpairs _ hlater
      rw [← ih hlater hrest, closerOf?, closerOf?, List.find?_cons_of_neg (by simpa using hne)]

theorem opener_not_escape (hpair : (opener, closer) ∈ pairs) : escapes.contains opener = false := by
  rw [Bool.eq_false_iff, ne_eq, List.contains_iff_mem]
  exact fun hmem => (h.escape_ne _ hmem _ hpair).1 rfl

theorem closer_not_escape (hpair : (opener, closer) ∈ pairs) : escapes.contains closer = false := by
  rw [Bool.eq_false_iff, ne_eq, List.contains_iff_mem]
  exact fun hmem => (h.escape_ne _ hmem _ hpair).2 rfl

theorem closer_not_opener (hpair : (opener, closer) ∈ pairs) : closerOf? pairs closer = none :=
  closerOf?_eq_none_iff.mpr fun _ hother heq => h.opener_ne_closer _ hother _ hpair heq.symm

end BracketsApart

/-! ### The machine takes groups -/

theorem map_behindCut_nil (cut : Option (List Char × List Char)) :
    cut.map (behindCut []) = cut := by
  cases cut <;> rfl

theorem map_behindCut_behindCut (xs ys : List Char) (cut : Option (List Char × List Char)) :
    (cut.map (behindCut ys)).map (behindCut xs) = cut.map (behindCut (xs ++ ys)) := by
  cases cut <;> simp [behindCut]

section Machine

variable {expected : List Char} {c : Char}

theorem closeRun_escape (hc : escapes.contains c = true) (expected : List Char) (x : Char)
    (text : List Char) :
    closeRun pairs escapes expected (c :: x :: text) =
      (closeRun pairs escapes expected text).map (behindCut [c, x]) := by
  rw [closeRun.eq_def]
  exact if_pos hc

theorem closeRun_opener {closer : Char} (hescape : escapes.contains c = false)
    (hc : closerOf? pairs c = some closer) (expected text : List Char) :
    closeRun pairs escapes expected (c :: text) =
      (closeRun pairs escapes (closer :: expected) text).map (behindCut [c]) := by
  rw [closeRun.eq_def]
  simp only [hescape, hc, Bool.false_eq_true, if_false]

/-- The closer that is expected is taken off the stack. -/
theorem closeRun_closer (hescape : escapes.contains c = false) (hopener : closerOf? pairs c = none)
    (hc : isCloser pairs c = true) (expected text : List Char) :
    closeRun pairs escapes (c :: expected) (c :: text) =
      if expected.isEmpty then some ([c], text)
      else (closeRun pairs escapes expected text).map (behindCut [c]) := by
  rw [closeRun.eq_def]
  simp only [hescape, hopener, hc, Bool.false_eq_true, if_false, if_true]

theorem closeRun_plain (hescape : escapes.contains c = false) (hopener : closerOf? pairs c = none)
    (hc : isCloser pairs c = false) (expected text : List Char) :
    closeRun pairs escapes expected (c :: text) =
      (closeRun pairs escapes expected text).map (behindCut [c]) := by
  rw [closeRun.eq_def]
  simp only [hescape, hopener, hc, Bool.false_eq_true, if_false]

theorem closeRun_items {items : List (List Char)}
    (hitems : ∀ item ∈ items, ∀ text, closeRun pairs escapes expected (item ++ text) =
      (closeRun pairs escapes expected text).map (behindCut item)) (text : List Char) :
    closeRun pairs escapes expected (items.flatten ++ text) =
      (closeRun pairs escapes expected text).map (behindCut items.flatten) := by
  induction items with
  | nil => exact (map_behindCut_nil _).symm
  | cons item items ih =>
    obtain ⟨hitem, hitems⟩ := List.forall_mem_cons.mp hitems
    rw [List.flatten_cons, List.append_assoc, hitem, ih hitems, map_behindCut_behindCut]

/-- The machine passes over an item, whatever stack of closers it holds, and keeps that stack. -/
theorem closeRun_item (h : BracketsApart pairs escapes) {item : List Char}
    (hitem : BracketItem pairs escapes item) (hne : expected ≠ []) (text : List Char) :
    closeRun pairs escapes expected (item ++ text) =
      (closeRun pairs escapes expected text).map (behindCut item) := by
  induction hitem generalizing expected text with
  | escaped he x => exact closeRun_escape (by simpa using he) expected x text
  | plain hopener hcloser hescape =>
    apply closeRun_plain
    · simpa using hescape
    · exact closerOf?_eq_none_iff.mpr hopener
    · rw [Bool.eq_false_iff, ne_eq, isCloser_iff]
      exact fun ⟨pair, hpair, heq⟩ => hcloser pair hpair heq
  | @group opener closer items hpair hitems ih =>
    have hopen := closeRun_opener (h.opener_not_escape hpair) (h.closerOf?_eq hpair) expected
      (items.flatten ++ closer :: text)
    have hinner := closeRun_items (fun item hmem => ih item hmem (List.cons_ne_nil closer expected))
      (closer :: text)
    have hclose := closeRun_closer (h.closer_not_escape hpair) (h.closer_not_opener hpair)
      (isCloser_iff.mpr ⟨_, hpair, rfl⟩) expected text
    rw [if_neg (by simpa using hne)] at hclose
    rw [List.cons_append, List.append_assoc, List.singleton_append, hopen, hinner, hclose,
      map_behindCut_behindCut, map_behindCut_behindCut]
    simp

/-- Every group is taken, whatever comes behind it. -/
theorem balancedRun_of_group (h : BracketsApart pairs escapes) {run : List Char}
    (hrun : BracketGroup pairs escapes run) (rest : List Char) :
    balancedRun pairs escapes (run ++ rest) = some (run, rest) := by
  cases hrun with
  | @mk opener closer items hpair hitems =>
    have hinner := closeRun_items (fun item hmem =>
      closeRun_item h (hitems item hmem) (List.cons_ne_nil closer [])) (closer :: rest)
    have hclose := closeRun_closer (h.closer_not_escape hpair) (h.closer_not_opener hpair)
      (isCloser_iff.mpr ⟨_, hpair, rfl⟩) [] rest
    rw [List.cons_append, List.append_assoc, List.singleton_append, balancedRun,
      h.closerOf?_eq hpair]
    simp [hinner, hclose, behindCut]

end Machine

/-! ### What the machine takes is a group -/

/-- A run that closes a stack of brackets, innermost first: items before each of the closers. -/
inductive Closes (pairs : List (Char × Char)) (escapes : List Char) :
    List Char → List Char → Prop
  | nil : Closes pairs escapes [] []
  | cons {closer : Char} {outer run : List Char} {items : List (List Char)}
      (hitems : ∀ item ∈ items, BracketItem pairs escapes item)
      (houter : Closes pairs escapes outer run) :
      Closes pairs escapes (closer :: outer) (items.flatten ++ closer :: run)

theorem Closes.closer {outer run : List Char} (closer : Char) (h : Closes pairs escapes outer run) :
    Closes pairs escapes (closer :: outer) (closer :: run) :=
  have hitems : ∀ item ∈ ([] : List (List Char)), BracketItem pairs escapes item := by simp
  .cons hitems h

theorem Closes.prepend {item expected run : List Char} (hitem : BracketItem pairs escapes item)
    (hne : expected ≠ []) (h : Closes pairs escapes expected run) :
    Closes pairs escapes expected (item ++ run) := by
  cases h with
  | nil => exact absurd rfl hne
  | @cons closer outer run items hitems houter =>
    rw [← List.append_assoc, ← List.flatten_cons]
    exact .cons (List.forall_mem_cons.mpr ⟨hitem, hitems⟩) houter

/-- What the machine goes over before its stack is empty closes the stack. -/
theorem closes_of_closeRun {expected text run rest : List Char} (hne : expected ≠ [])
    (h : closeRun pairs escapes expected text = some (run, rest)) :
    Closes pairs escapes expected run := by
  fun_induction closeRun pairs escapes expected text generalizing run rest with
  | case1 | case2 | case5 | case8 => simp at h
  | case3 expected c hescape d ds ih =>
    obtain ⟨tail, htail, rfl⟩ := map_behindCut_eq_some.mp h
    exact (ih hne htail).prepend (.escaped (by simpa using hescape) d) hne
  | case4 expected c cs hescape closer hcloser ih =>
    obtain ⟨tail, htail, rfl⟩ := map_behindCut_eq_some.mp h
    cases ih (List.cons_ne_nil _ _) htail with
    | @cons _ _ tail items hitems houter =>
      have hgroup := BracketItem.group (closerOf?_mem hcloser) hitems
      simpa using houter.prepend hgroup hne
  | case6 cs closer outer houter hescape hopener hcloser =>
    obtain ⟨rfl, -⟩ : [closer] = run ∧ cs = rest := by simpa using h
    obtain rfl := List.isEmpty_iff.mp houter
    exact Closes.nil.closer closer
  | case7 cs closer outer houter hescape hopener hcloser ih =>
    obtain ⟨tail, htail, rfl⟩ := map_behindCut_eq_some.mp h
    exact (ih (by simpa using houter) htail).closer closer
  | case9 expected c cs hescape hopener hcloser ih =>
    obtain ⟨tail, htail, rfl⟩ := map_behindCut_eq_some.mp h
    refine (ih hne htail).prepend (.plain (closerOf?_eq_none_iff.mp hopener) ?_ ?_) hne
    · exact fun pair hpair heq => hcloser (isCloser_iff.mpr ⟨pair, hpair, heq⟩)
    · simpa using hescape

/-- Every run that is taken is a group. -/
theorem group_of_balancedRun {text run rest : List Char}
    (h : balancedRun pairs escapes text = some (run, rest)) : BracketGroup pairs escapes run := by
  cases text with
  | nil => simp [balancedRun] at h
  | cons c cs =>
    cases hcloser : closerOf? pairs c with
    | none => simp [balancedRun, hcloser] at h
    | some closer =>
      simp only [balancedRun, hcloser] at h
      obtain ⟨tail, htail, rfl⟩ := map_behindCut_eq_some.mp h
      cases closes_of_closeRun (List.cons_ne_nil closer []) htail with
      | cons hitems houter =>
        cases houter
        exact .mk (closerOf?_mem hcloser) hitems

theorem balancedRun_iff (h : BracketsApart pairs escapes) {text run rest : List Char} :
    balancedRun pairs escapes text = some (run, rest) ↔
      BracketGroup pairs escapes run ∧ text = run ++ rest := by
  constructor
  · intro hrun
    exact ⟨group_of_balancedRun hrun, (balancedRun_append hrun).symm⟩
  · rintro ⟨hgroup, rfl⟩
    exact balancedRun_of_group h hgroup rest

/-- A text starts with at most one group. -/
theorem BracketGroup.unique (h : BracketsApart pairs escapes) {run other text : List Char}
    (hrun : BracketGroup pairs escapes run) (hother : BracketGroup pairs escapes other)
    (hleads : run <+: text) (hleads' : other <+: text) : run = other := by
  obtain ⟨rest, rfl⟩ := hleads
  obtain ⟨rest', heq⟩ := hleads'
  have htaken := balancedRun_of_group h hother rest'
  rw [heq, balancedRun_of_group h hrun rest] at htaken
  exact congrArg Prod.fst (Option.some.inj htaken)

/-! ### Taking a run -/

namespace Cursor

theorem takeBalanced_of_group (h : BracketsApart pairs escapes) {c d : Cursor} {run : List Char}
    (hgroup : BracketGroup pairs escapes run) (hmoves : c.Moves run d) :
    c.takeBalanced pairs escapes = (some run, d) := by
  have htaken : balancedRun pairs escapes c.rest = some (run, d.rest) :=
    (balancedRun_iff h).mpr ⟨hgroup, hmoves.rest_eq⟩
  obtain ⟨e, he, hmoves'⟩ := matchBalanced_of_some htaken
  rw [takeBalanced, he, hmoves.unique hmoves']

theorem takeBalanced_of_no_group {c : Cursor}
    (hnone : ¬ ∃ run, BracketGroup pairs escapes run ∧ run <+: c.rest) :
    c.takeBalanced pairs escapes = (none, c) := by
  have hmiss : balancedRun pairs escapes c.rest = none := by
    cases hrun : balancedRun pairs escapes c.rest with
    | none => rfl
    | some found =>
      exact absurd ⟨found.1, group_of_balancedRun hrun, found.2, balancedRun_append hrun⟩ hnone
  rw [takeBalanced, matchBalanced_of_none hmiss]

theorem takeBalanced_cases (h : BracketsApart pairs escapes) (c : Cursor) :
    (∃ run d, BracketGroup pairs escapes run ∧ run <+: c.rest ∧ c.Moves run d ∧
      c.takeBalanced pairs escapes = (some run, d)) ∨
    (¬ ∃ run, BracketGroup pairs escapes run ∧ run <+: c.rest) ∧
      c.takeBalanced pairs escapes = (none, c) := by
  by_cases hsome : ∃ run, BracketGroup pairs escapes run ∧ run <+: c.rest
  · obtain ⟨run, hgroup, rest, hrest⟩ := hsome
    have hmoves := c.moves_past hrest
    exact .inl ⟨run, _, hgroup, ⟨rest, hrest⟩, hmoves, takeBalanced_of_group h hgroup hmoves⟩
  · exact .inr ⟨hsome, takeBalanced_of_no_group hsome⟩

theorem takeBalanced_eq_some (h : BracketsApart pairs escapes) {c d : Cursor} {run : List Char} :
    c.takeBalanced pairs escapes = (some run, d) ↔
      BracketGroup pairs escapes run ∧ run <+: c.rest ∧ c.Moves run d := by
  constructor
  · intro htaken
    rcases takeBalanced_cases h c with ⟨run', d', hgroup, hleads, hmoves, htaken'⟩ | ⟨-, hmiss⟩
    · obtain ⟨hrun, rfl⟩ := Prod.mk.inj (htaken.symm.trans htaken')
      obtain rfl := Option.some.inj hrun
      exact ⟨hgroup, hleads, hmoves⟩
    · simp [hmiss] at htaken
  · rintro ⟨hgroup, -, hmoves⟩
    exact takeBalanced_of_group h hgroup hmoves

theorem takeBalanced_eq_none (h : BracketsApart pairs escapes) {c d : Cursor} :
    c.takeBalanced pairs escapes = (none, d) ↔
      (¬ ∃ run, BracketGroup pairs escapes run ∧ run <+: c.rest) ∧ d = c := by
  constructor
  · intro htaken
    rcases takeBalanced_cases h c with ⟨run', d', -, -, -, htaken'⟩ | ⟨hnone, hmiss⟩
    · simp [htaken'] at htaken
    · exact ⟨hnone, (Prod.mk.inj (htaken.symm.trans hmiss)).2⟩
  · rintro ⟨hnone, rfl⟩
    exact takeBalanced_of_no_group hnone

/-- Taking a balanced run gives the group that the text starts with, of which there is at most one,
and moves over exactly that group; where the text starts with none, the cursor stays. -/
theorem takeBalanced_iff (h : BracketsApart pairs escapes) (c : Cursor) :
    (∀ run d, c.takeBalanced pairs escapes = (some run, d) ↔
      BracketGroup pairs escapes run ∧ run <+: c.rest ∧ c.Moves run d) ∧
    (∀ d, c.takeBalanced pairs escapes = (none, d) ↔
      (¬ ∃ run, BracketGroup pairs escapes run ∧ run <+: c.rest) ∧ d = c) ∧
    ∀ run other, BracketGroup pairs escapes run → run <+: c.rest →
      BracketGroup pairs escapes other → other <+: c.rest → run = other := by
  refine ⟨fun run d => takeBalanced_eq_some h, fun d => takeBalanced_eq_none h, ?_⟩
  intro run other hrun hleads hother hleads'
  exact hrun.unique h hother hleads hleads'

/-- A closer behind an escape closes nothing, and one of another pair spoils the run. -/
theorem takeBalanced_iff_hidden :
    BracketsApart [('(', ')'), ('[', ']')] ['\\'] ∧
    (ofText ['(', 'é', '[', '\\', ')', ']', ')', ']']).takeBalanced [('(', ')'), ('[', ']')] ['\\'] =
      (some ['(', 'é', '[', '\\', ')', ']', ')'],
        (ofText ['(', 'é', '[', '\\', ')', ']', ')', ']']).advance 8) ∧
    BracketGroup [('(', ')'), ('[', ']')] ['\\'] ['(', 'é', '[', '\\', ')', ']', ')'] ∧
    ¬ ∃ run, BracketGroup [('(', ')'), ('[', ']')] ['\\'] run ∧ run <+: ['(', '[', ')', ']'] := by
  have h : BracketsApart [('(', ')'), ('[', ']')] ['\\'] := ⟨by decide, by decide, by simp⟩
  have htaken : (ofText ['(', 'é', '[', '\\', ')', ']', ')', ']']).takeBalanced
      [('(', ')'), ('[', ']')] ['\\'] = (some ['(', 'é', '[', '\\', ')', ']', ')'],
        (ofText ['(', 'é', '[', '\\', ')', ']', ')', ']']).advance 8) := by decide
  have hmiss : (ofText ['(', '[', ')', ']']).takeBalanced [('(', ')'), ('[', ']')] ['\\'] =
      (none, ofText ['(', '[', ')', ']']) := by decide
  exact ⟨h, htaken, (((takeBalanced_iff h _).1 _ _).mp htaken).1,
    (((takeBalanced_iff h _).2.1 _).mp hmiss).1⟩

end Cursor

end DataTemplate
