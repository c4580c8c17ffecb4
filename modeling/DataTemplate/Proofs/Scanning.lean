/-
Searching and scanning in printed text.  A comment, an expression and static text are taken as they
were printed, whatever comes after them.  Main statements: `search_of_isStatic`,
`Cursor.comment?_line`, `Cursor.comment?_block` and `Braced.scan_eq`.
-/
import DataTemplate.Proofs.Forms
import DataTemplate.Proofs.Spans

namespace DataTemplate

variable {σ : Type}

/-! ### Where tokens end -/

/-- The characters that come right after a key or a value in a printed document: white space, the
start of a comment, and punctuation. -/
def breakChars : List Char :=
  [' ', '\t', '\r', '\n', '\x0b', '\x0c', '/', ',', ':', ']', '}']

/-- Whether a token may end before this text. -/
def tokenMayEnd (text : List Char) : Bool := text.head?.all breakChars.contains

/-- Whether a token may start with this text, so that neither white space nor a comment does. -/
def tokenMayStart (text : List Char) : Bool := text.head?.any fun x => !breakChars.contains x

theorem mem_breakChars_of_isBlank {c : Char} (h : isBlank c = true) : c ∈ breakChars := by
  simp only [isBlank, Bool.or_eq_true, beq_iff_eq] at h
  rcases h with ((((rfl | rfl) | rfl) | rfl) | rfl) | rfl <;> decide

theorem not_isIdentifierContinue_of_mem {c : Char} (h : c ∈ breakChars) :
    isIdentifierContinue c = false := by
  have hall : (breakChars.all fun c => !isIdentifierContinue c) = true := by decide +kernel
  simpa using List.all_eq_true.mp hall c h

theorem tokenMayEnd_cons {c : Char} {text : List Char} (h : c ∈ breakChars) :
    tokenMayEnd (c :: text) = true := by
  simpa [tokenMayEnd] using h

theorem head?_any_of_tokenMayEnd {p : Char → Bool} {text : List Char}
    (h : tokenMayEnd text = true) (hp : ∀ c ∈ breakChars, p c = false) :
    text.head?.any p = false := by
  cases text with
  | nil => rfl
  | cons c text =>
    have hc : c ∈ breakChars := by simpa [tokenMayEnd] using h
    simpa using hp c hc

theorem numberMayEnd_of_tokenMayEnd {text : List Char} (h : tokenMayEnd text = true) :
    numberMayEnd text = true := by
  cases text with
  | nil => rfl
  | cons c text =>
    have hc : c ∈ breakChars := by simpa [tokenMayEnd] using h
    have hall : (breakChars.all fun c => numberMayEnd [c]) = true := by decide
    exact List.all_eq_true.mp hall c hc

theorem tokenMayStart_cons {c : Char} {text : List Char} (h : c ∉ breakChars) :
    tokenMayStart (c :: text) = true := by
  simpa [tokenMayStart] using h

/-- White space is trivia, character by character. -/
theorem exists_gap_of_blanks {text : List Char} (h : ∀ x ∈ text, isBlank x = true) :
    ∃ gap : Gap, gap.text = text := by
  induction text with
  | nil => exact ⟨[], rfl⟩
  | cons x text ih =>
    obtain ⟨hx, htext⟩ := List.forall_mem_cons.mp h
    obtain ⟨gap, rfl⟩ := ih htext
    exact ⟨.blank x hx :: gap, rfl⟩

/-- The longest run of a class is taken where the character after it is not of the class. -/
theorem takeWhile_run {p : Char → Bool} {cs rest : List Char} (hcs : ∀ c ∈ cs, p c = true)
    (hrest : rest.head?.any p = false) : (cs ++ rest).takeWhile p = cs := by
  rw [List.takeWhile_append_of_pos hcs]
  cases rest with
  | nil => simp
  | cons c rest =>
    have hc : p c = false := by simpa using hrest
    simp [hc]

theorem dropWhile_run {p : Char → Bool} {cs rest : List Char} (hcs : ∀ c ∈ cs, p c = true)
    (hrest : rest.head?.any p = false) : (cs ++ rest).dropWhile p = rest := by
  rw [List.dropWhile_append_of_pos hcs]
  cases rest with
  | nil => simp
  | cons c rest =>
    have hc : p c = false := by simpa using hrest
    simp [hc]

/-! ### Searching -/

theorem search_cons {needles : List (List Char)} {escape : Option Char} {c : Char}
    (h : escape ≠ some c) (cs : List Char) :
    search needles escape (c :: cs) =
      match needleAt? needles (c :: cs) with
      | some needle => some ⟨[], needle, (c :: cs).drop needle.length⟩
      | none => (search needles escape cs).map (Occurrence.behind [c]) := by
  have hother : ¬ (escape == some c) = true := by simpa using h
  rw [search.eq_def]
  exact if_neg hother

theorem search_cons_escape (needles : List (List Char)) (c d : Char) (cs : List Char) :
    search needles (some c) (c :: d :: cs) =
      (search needles (some c) cs).map (Occurrence.behind [c, d]) := by
  rw [search.eq_def]
  simp

theorem needleAt?_singletons (stops : List Char) (x : Char) (xs : List Char) :
    needleAt? (stops.map fun stop => [stop]) (x :: xs) = if x ∈ stops then some [x] else none := by
  induction stops with
  | nil => rfl
  | cons stop stops ih =>
    unfold needleAt? at ih ⊢
    rw [List.map_cons, List.find?_cons]
    by_cases hx : stop = x
    · simp [hx]
    · have hother : x ≠ stop := fun h => hx h.symm
      have hstarts : (! List.isEmpty [stop] && [stop].isPrefixOf (x :: xs)) = false := by
        simpa [List.isPrefixOf] using hx
      simp only [hstarts, ih, List.mem_cons, hother, false_or]

theorem needleAt?_lineEnds (x : Char) (xs : List Char) :
    needleAt? [['\n'], ['\r']] (x :: xs) = if x ∈ ['\n', '\r'] then some [x] else none :=
  needleAt?_singletons ['\n', '\r'] x xs

/-- A needle is found where it starts if none starts before. -/
theorem search_eq_of_first {needles : List (List Char)} {needle rest : List Char}
    (hmem : needleAt? needles (needle ++ rest) = some needle) (before : List Char)
    (hbefore : ∀ xs ys, ys ≠ [] → xs ++ ys = before →
      needleAt? needles (ys ++ (needle ++ rest)) = none) :
    search needles none (before ++ (needle ++ rest)) = some ⟨before, needle, rest⟩ := by
  induction before with
  | nil =>
    have hne := needleAt?_ne_nil hmem
    obtain ⟨x, xs, rfl⟩ := List.exists_cons_of_ne_nil hne
    simp only [List.nil_append, List.cons_append] at hmem ⊢
    rw [search_cons (by simp), hmem]
    simp
  | cons x before ih =>
    have hhere := hbefore [] (x :: before) (by simp) rfl
    have hlater := ih fun xs ys hys hsplit => hbefore (x :: xs) ys hys (by simp [hsplit])
    simp only [List.cons_append] at hhere ⊢
    rw [search_cons (by simp), hhere, hlater]
    rfl

/-- No needle starts in front of the one that is found. -/
theorem search_leftmost {needles : List (List Char)} {text : List Char} {found : Occurrence}
    (h : search needles none text = some found) {xs ys : List Char} (hys : ys ≠ [])
    (hsplit : xs ++ ys = found.before) :
    needleAt? needles (ys ++ (found.needle ++ found.after)) = none := by
  induction text generalizing found xs with
  | nil => simp [search] at h
  | cons c cs ih =>
    rw [search_cons (by simp)] at h
    split at h
    · obtain rfl := Option.some.inj h
      exact absurd (List.append_eq_nil_iff.mp hsplit).2 hys
    · rename_i hnone
      obtain ⟨inner, hinner, rfl⟩ := Option.map_eq_some_iff.mp h
      cases xs with
      | nil =>
        obtain rfl : ys = c :: inner.before := hsplit
        have hspelled := (search_in hinner).spelled
        rw [List.append_assoc] at hspelled
        simpa [Occurrence.behind, hspelled] using hnone
      | cons x xs =>
        have hlater := ih hinner (List.cons.inj hsplit).2
        exact hlater

theorem needleAt?_eq_none {needle text : List Char} (h : ¬ needle <+: text) :
    needleAt? [needle] text = none := by
  have hfirst : needle.isPrefixOf text = false := by simpa [← List.isPrefixOf_iff_prefix] using h
  simp [needleAt?, hfirst]

theorem needleAt?_append_eq {needle rest : List Char} (h : needle ≠ []) :
    needleAt? [needle] (needle ++ rest) = some needle := by
  have hfirst : needle.isPrefixOf (needle ++ rest) = true :=
    List.isPrefixOf_iff_prefix.mpr (List.prefix_append _ _)
  simp [needleAt?, hfirst, h]

/-- A needle is found behind a text without it, unless one can start in that text and end behind
it. -/
theorem search_eq_of_no_infix {needle before rest : List Char} (hne : needle ≠ [])
    (hnowhere : ¬ needle <:+: before)
    (hoverlap : ∀ ys, ys ≠ [] → ys <:+ before → ys <+: needle →
      ¬ needle <+: ys ++ (needle ++ rest)) :
    search [needle] none (before ++ (needle ++ rest)) = some ⟨before, needle, rest⟩ := by
  apply search_eq_of_first (needleAt?_append_eq hne)
  rintro xs ys hys rfl
  apply needleAt?_eq_none
  intro hstarts
  rcases List.prefix_or_prefix_of_prefix hstarts (List.prefix_append ys _) with hin | hout
  · exact hnowhere (hin.isInfix.trans (List.suffix_append xs ys).isInfix)
  · exact hoverlap ys hys (List.suffix_append xs ys) hout hstarts

/-- The text in which single characters are not found is free of them. -/
theorem free_of_search_none {stops text : List Char}
    (h : search (stops.map fun stop => [stop]) none text = none) : ∀ x ∈ text, x ∉ stops := by
  induction text with
  | nil => simp
  | cons x text ih =>
    rw [search_cons (by simp), needleAt?_singletons] at h
    split at h
    · simp at h
    · exact List.forall_mem_cons.mpr ⟨by simp_all, ih (by simpa using h)⟩

/-- A text in which a needle is not found does not hold it. -/
theorem not_infix_of_search_none {needle text : List Char} (hne : needle ≠ [])
    (h : search [needle] none text = none) : ¬ needle <:+: text := by
  induction text with
  | nil => simpa using hne
  | cons x text ih =>
    rw [search_cons (by simp)] at h
    split at h
    · simp at h
    · rename_i hnone
      intro hinfix
      rcases List.infix_cons_iff.mp hinfix with ⟨rest, hhere⟩ | hlater
      · rw [← hhere, needleAt?_append_eq hne] at hnone
        simp at hnone
      · exact ih (by simpa using h) hlater

theorem map_behind_nil (found : Option Occurrence) : found.map (Occurrence.behind []) = found := by
  cases found <;> rfl

theorem map_behind_behind (xs ys : List Char) (found : Option Occurrence) :
    (found.map (Occurrence.behind ys)).map (Occurrence.behind xs) =
      found.map (Occurrence.behind (xs ++ ys)) := by
  cases found <;> simp [Occurrence.behind]

/-- A search for single characters passes over static text. -/
theorem search_of_isStatic {stops : List Char} {cs : List Char} (h : isStatic stops cs = true)
    (text : List Char) :
    search (stops.map fun stop => [stop]) (some '\\') (cs ++ text) =
      (search (stops.map fun stop => [stop]) (some '\\') text).map (Occurrence.behind cs) := by
  fun_induction isStatic stops cs with
  | case1 => rw [List.nil_append, map_behind_nil]
  | case2 => simp at h
  | case3 d ds ih =>
    simp only [List.cons_append]
    rw [search_cons_escape, ih h, map_behind_behind]
    rfl
  | case4 c cs hc ih =>
    obtain ⟨hnot, hcs⟩ : c ∉ stops ∧ isStatic stops cs = true := by simpa using h
    have hother : some '\\' ≠ some c := by
      rintro ⟨⟩
      exact hc rfl
    simp only [List.cons_append]
    rw [search_cons hother, needleAt?_singletons, if_neg hnot, ih hcs]
    exact map_behind_behind [c] cs _

theorem search_stop {stops : List Char} (hescape : '\\' ∉ stops) {stop : Char}
    (hstop : stop ∈ stops) (rest : List Char) :
    search (stops.map fun stop => [stop]) (some '\\') (stop :: rest) =
      some ⟨[], [stop], rest⟩ := by
  have hother : some '\\' ≠ some stop := by
    rintro ⟨⟩
    exact hescape hstop
  rw [search_cons hother, needleAt?_singletons, if_pos hstop]
  rfl

/-- The first of the characters that may interrupt static text is found behind it. -/
theorem search_static {stops : List Char} (hescape : '\\' ∉ stops) {stop : Char}
    (hstop : stop ∈ stops) {cs : List Char} (h : isStatic stops cs = true) (rest : List Char) :
    search (stops.map fun stop => [stop]) (some '\\') (cs ++ stop :: rest) =
      some ⟨cs, [stop], rest⟩ := by
  rw [search_of_isStatic h, search_stop hescape hstop]
  simp [Occurrence.behind]

theorem isStatic_cons {stops : List Char} {c : Char} (h : c ≠ '\\') (cs : List Char) :
    isStatic stops (c :: cs) = (!stops.contains c && isStatic stops cs) := by
  rw [isStatic.eq_def]
  simp only [h, if_false]

theorem isStatic_mono {stops others : List Char} (hsub : ∀ c ∈ others, c ∈ stops)
    {cs : List Char} (h : isStatic stops cs = true) : isStatic others cs = true := by
  fun_induction isStatic stops cs with
  | case1 => rfl
  | case2 => simp at h
  | case3 d ds ih => simpa [isStatic] using ih h
  | case4 c cs hc ih =>
    obtain ⟨hnot, hcs⟩ : c ∉ stops ∧ isStatic stops cs = true := by simpa using h
    have hfree : c ∉ others := fun hmem => hnot (hsub c hmem)
    rw [isStatic_cons hc]
    simp [hfree, ih hcs]

theorem isStatic_append {stops xs : List Char} (h : isStatic stops xs = true) (ys : List Char) :
    isStatic stops (xs ++ ys) = isStatic stops ys := by
  fun_induction isStatic stops xs with
  | case1 => rfl
  | case2 => simp at h
  | case3 d ds ih => simpa [isStatic] using ih h
  | case4 c cs hc ih =>
    obtain ⟨hnot, hcs⟩ : c ∉ stops ∧ isStatic stops cs = true := by simpa using h
    rw [List.cons_append, isStatic_cons hc, ih hcs]
    simp [hnot]

/-- The text in front of what was found holds the needles behind backslashes only. -/
theorem isStatic_before {stops text : List Char} {found : Occurrence}
    (h : search (stops.map fun stop => [stop]) (some '\\') text = some found) :
    isStatic stops found.before = true := by
  fun_induction search (stops.map fun stop => [stop]) (some '\\') text generalizing found with
  | case1 => simp at h
  | case2 => simp at h
  | case3 c hescape d ds ih =>
    have hc : '\\' = c := by simpa using hescape
    subst hc
    obtain ⟨inner, hinner, rfl⟩ := Option.map_eq_some_iff.mp h
    simpa [Occurrence.behind, isStatic] using ih hinner
  | case4 =>
    obtain rfl := Option.some.inj h
    rfl
  | case5 c cs hescape hnone ih =>
    have hc : c ≠ '\\' := by
      rintro rfl
      simp at hescape
    obtain ⟨inner, hinner, rfl⟩ := Option.map_eq_some_iff.mp h
    rw [needleAt?_singletons] at hnone
    have hfree : c ∉ stops := by simpa using hnone
    rw [Occurrence.behind, List.singleton_append, isStatic_cons hc]
    simp [hfree, ih hinner]

/-- Static text goes up to its end, or to the first character of one more kind. -/
theorem isStatic_split {stop x : Char} (hx : x ≠ '\\') {cs : List Char}
    (h : isStatic [stop] cs = true) :
    isStatic [stop, x] cs = true ∨ ∃ before after, cs = before ++ x :: after ∧
      isStatic [stop, x] before = true ∧ isStatic [stop] after = true := by
  fun_induction isStatic [stop] cs with
  | case1 => exact .inl rfl
  | case2 => simp at h
  | case3 d ds ih =>
    rcases ih h with hds | ⟨before, after, rfl, hbefore, hafter⟩
    · exact .inl (by simpa [isStatic] using hds)
    · exact .inr ⟨'\\' :: d :: before, after, rfl, by simpa [isStatic] using hbefore, hafter⟩
  | case4 c cs hc ih =>
    obtain ⟨hnot, hcs⟩ : c ≠ stop ∧ isStatic [stop] cs = true := by simpa using h
    by_cases hstop : c = x
    · subst hstop
      exact .inr ⟨[], cs, rfl, rfl, hcs⟩
    · rcases ih hcs with hall | ⟨before, after, rfl, hbefore, hafter⟩
      · exact .inl (by rw [isStatic_cons hc]; simp [hnot, hstop, hall])
      · exact .inr ⟨c :: before, after, rfl, by rw [isStatic_cons hc]; simp [hnot, hstop, hbefore],
          hafter⟩

/-- What is found behind a cursor, by the text that it looks at. -/
theorem Cursor.find_of_search {c : Cursor} {needles : List (List Char)} {escape : Option Char}
    {found : Occurrence} (h : search needles escape c.rest = some found) :
    ∃ hit, c.find needles escape = some hit ∧ hit.before = found.before ∧
      hit.needle = found.needle ∧ hit.stop.rest = found.after := by
  unfold find
  split
  · rename_i hnone
    exact absurd (h.symm.trans hnone) (by simp)
  · rename_i other hother
    obtain rfl : found = other := Option.some.inj (h.symm.trans hother)
    exact ⟨_, rfl, rfl, rfl, rfl⟩

theorem Cursor.search_of_find {c : Cursor} {needles : List (List Char)} {escape : Option Char}
    {hit : c.Hit needles} (h : c.find needles escape = some hit) :
    search needles escape c.rest = some ⟨hit.before, hit.needle, hit.stop.rest⟩ := by
  unfold find at h
  split at h
  · simp at h
  · rename_i found hfound
    obtain rfl := Option.some.inj h
    exact hfound

theorem Cursor.search_of_find_none {c : Cursor} {needles : List (List Char)} {escape : Option Char}
    (h : c.find needles escape = none) : search needles escape c.rest = none := by
  unfold find at h
  split at h
  · assumption
  · simp at h

theorem Cursor.Hit.rest_start {c : Cursor} {needles : List (List Char)} (hit : c.Hit needles) :
    hit.start.rest = hit.needle ++ hit.stop.rest := hit.spell.rest_eq

/-! ### Comments and expressions -/

theorem Cursor.rest_advance {c : Cursor} {text rest : List Char} (h : c.rest = text ++ rest) :
    (c.advance (byteLength text)).rest = rest := by
  simp only [advance, past]
  rw [h, cutBytes_byteLength]

/-- A comment whose end is met is taken up to that end. -/
theorem Cursor.comment?_of_search {c : Cursor} {ends : List (List Char)} (mark : List Char)
    {body needle rest : List Char} (hends : commentEnds? c.rest = some ends)
    (hmark : byteLength mark = 2)
    (hc : c.rest = mark ++ (body ++ (needle ++ rest)))
    (hsearch : search ends none (body ++ (needle ++ rest)) = some ⟨body, needle, rest⟩) :
    ∃ d, c.comment? = some d ∧ d.1.rest = rest := by
  have hadvance : (c.advance 2).rest = body ++ (needle ++ rest) := by
    rw [← hmark]
    exact rest_advance hc
  obtain ⟨hit, hfind, -, -, hrest⟩ := find_of_search (hadvance ▸ hsearch)
  unfold comment?
  split
  · rename_i hnone
    simp [hnone] at hends
  · rename_i others hothers
    obtain rfl : ends = others := Option.some.inj (hends.symm.trans hothers)
    dsimp only
    rw [hfind]
    exact ⟨_, rfl, hrest⟩

theorem Cursor.comment?_line {c : Cursor} {body rest : List Char} {stop : Char}
    (hbody : ∀ x ∈ body, x ≠ '\n' ∧ x ≠ '\r') (hstop : stop = '\n' ∨ stop = '\r')
    (hc : c.rest = '/' :: '/' :: (body ++ stop :: rest)) :
    ∃ d, c.comment? = some d ∧ d.1.rest = rest := by
  have hsearch : search [['\n'], ['\r']] none (body ++ ([stop] ++ rest)) =
      some ⟨body, [stop], rest⟩ := by
    apply search_eq_of_first
    · rw [List.singleton_append, needleAt?_lineEnds, if_pos (by simpa using hstop)]
    · rintro xs ys hys rfl
      obtain ⟨y, ys, rfl⟩ := List.exists_cons_of_ne_nil hys
      rw [List.cons_append, needleAt?_lineEnds, if_neg]
      simpa using hbody y (by simp)
  exact Cursor.comment?_of_search ['/', '/'] (by rw [hc]; rfl) (by decide) hc hsearch

theorem Cursor.comment?_block {c : Cursor} {body rest : List Char} (hbody : ¬ ['*', '/'] <:+: body)
    (hc : c.rest = '/' :: '*' :: (body ++ '*' :: '/' :: rest)) :
    ∃ d, c.comment? = some d ∧ d.1.rest = rest := by
  have hsearch : search [['*', '/']] none (body ++ (['*', '/'] ++ rest)) =
      some ⟨body, ['*', '/'], rest⟩ := by
    apply search_eq_of_no_infix (by simp) hbody
    intro ys hys hsuffix hstarts
    obtain ⟨y, ys, rfl⟩ := List.exists_cons_of_ne_nil hys
    cases ys with
    | nil => simp
    | cons z zs =>
      obtain ⟨rfl, rfl, rfl⟩ : y = '*' ∧ z = '/' ∧ zs = [] := by
        simpa [List.cons_prefix_cons] using hstarts
      exact absurd hsuffix.isInfix hbody
  exact Cursor.comment?_of_search ['/', '*'] (by rw [hc]; rfl) (by decide) hc hsearch

/-- A line comment holds no line break in front of the one that ends it. -/
theorem search_lineEnds {text : List Char} {found : Occurrence}
    (h : search [['\n'], ['\r']] none text = some found) :
    (∀ x ∈ found.before, x ≠ '\n' ∧ x ≠ '\r') ∧
      ∃ stop, (stop = '\n' ∨ stop = '\r') ∧ found.needle = [stop] := by
  constructor
  · intro x hx
    obtain ⟨xs, ys, hsplit⟩ := List.append_of_mem hx
    have hnone := search_leftmost h (List.cons_ne_nil x ys) hsplit.symm
    rw [List.cons_append, needleAt?_lineEnds] at hnone
    simpa using hnone
  · simpa [or_and_right, exists_or] using (search_in h).mem

/-- A block comment does not hold the mark that ends it. -/
theorem search_blockEnd {text : List Char} {found : Occurrence}
    (h : search [['*', '/']] none text = some found) :
    ¬ ['*', '/'] <:+: found.before ∧ found.needle = ['*', '/'] := by
  constructor
  · rintro ⟨xs, ys, hsplit⟩
    rw [List.append_assoc] at hsplit
    have hnone := search_leftmost h (by simp) hsplit
    rw [List.append_assoc, needleAt?_append_eq (by simp)] at hnone
    simp at hnone
  · exact List.mem_singleton.mp (search_in h).mem

/-- The mark that starts a comment is stepped over. -/
theorem Cursor.moves_advance_mark {c : Cursor} {mark rest : List Char}
    (hmark : byteLength mark = 2) (h : c.rest = mark ++ rest) : c.Moves mark (c.advance 2) := by
  have hpeek : c.peek 2 = mark := by rw [peek, h, ← hmark, cutBytes_byteLength]
  exact hpeek ▸ c.moves_advance 2

/-- A comment whose end is found is closed. -/
theorem Cursor.comment_closed {c : Cursor} {ends : List (List Char)}
    (hends : commentEnds? c.rest = some ends) {hit : (c.advance 2).Hit ends}
    (hfind : (c.advance 2).find ends none = some hit) :
    ∃ filler : Filler, c.Moves filler.text hit.stop := by
  have hsearch := search_of_find hfind
  have hbody := hit.reach.trans hit.spell
  unfold commentEnds? at hends
  split at hends
  · rename_i rest hrest
    obtain rfl := Option.some.inj hends
    obtain ⟨hbefore, stop, hstop, hneedle⟩ := search_lineEnds hsearch
    have hmark := moves_advance_mark (by decide : byteLength ['/', '/'] = 2) hrest
    rw [show hit.needle = [stop] from hneedle] at hbody
    exact ⟨.line hit.before stop hbefore hstop, hmark.trans hbody⟩
  · rename_i rest hrest
    obtain rfl := Option.some.inj hends
    obtain ⟨hbefore, hneedle⟩ := search_blockEnd hsearch
    have hmark := moves_advance_mark (by decide : byteLength ['/', '*'] = 2) hrest
    rw [show hit.needle = ['*', '/'] from hneedle] at hbody
    exact ⟨.block hit.before hbefore, hmark.trans hbody⟩
  · simp at hends

/-- A comment that is taken is closed, or runs to the end of the text. -/
theorem Cursor.comment?_filler {c : Cursor} {d : c.After} (h : c.comment? = some d) :
    (∃ filler : Filler, c.Moves filler.text d.1) ∨ d.1.rest = [] := by
  unfold comment? at h
  split at h
  · simp at h
  · rename_i ends hends
    dsimp only at h
    split at h
    · rename_i hit hfind
      obtain rfl := Option.some.inj h
      exact .inl (comment_closed hends hfind)
    · obtain rfl := Option.some.inj h
      exact .inr rfl

theorem Cursor.comment?_eq_none {c : Cursor} (h : c.rest.head? ≠ some '/') : c.comment? = none := by
  unfold comment?
  split
  · rfl
  · rename_i ends hends
    unfold commentEnds? at hends
    split at hends
    · simp_all
    · simp_all
    · simp at hends

theorem Cursor.rest_matchWhile {c : Cursor} {p : Char → Bool} {cs rest : List Char}
    (hc : c.rest = cs ++ rest) (hcs : ∀ x ∈ cs, p x = true) (hrest : rest.head?.any p = false) :
    c.runOf p = cs ∧ (c.matchWhile p).rest = rest := by
  have hrun := takeWhile_run hcs hrest
  have hleft := dropWhile_run hcs hrest
  rw [← hc] at hrun hleft
  exact ⟨hrun, hleft⟩

theorem Braced.exists_braces (form : Braced) : ∃ n, form.braces = n + 2 :=
  ⟨form.braces - 2, by have := form.two_le; omega⟩

theorem Braced.text_eq (form : Braced) : ∃ tail, form.text = '{' :: '{' :: tail := by
  obtain ⟨n, hn⟩ := form.exists_braces
  refine ⟨List.replicate n '{' ++ (form.body ++ List.replicate form.braces '}'), ?_⟩
  simp [text, hn, List.replicate_succ]

/-- Behind the body of an expression its own braces are the first that close it. -/
theorem Braced.search_eq (form : Braced) (rest : List Char) :
    search [List.replicate form.braces '}'] none
        (form.body ++ (List.replicate form.braces '}' ++ rest)) =
      some ⟨form.body, List.replicate form.braces '}', rest⟩ := by
  have hbraces := form.two_le
  apply search_eq_of_no_infix (by simp; omega) form.no_close
  intro ys hys hsuffix hstarts
  obtain ⟨xs, hxs⟩ := hsuffix
  have hlast : ys.getLast hys = '}' := by
    have hmem := hstarts.subset (List.getLast_mem hys)
    exact (List.mem_replicate.mp hmem).2
  apply absurd form.last_ne
  simp [← hxs, List.getLast?_append, List.getLast?_eq_some_getLast hys, hlast]

/-- An expression is taken as a whole. -/
theorem Braced.scan_eq (form : Braced) {c : Cursor} {rest : List Char}
    (hc : c.rest = form.text ++ rest) :
    ∃ e d, Expression.scan c = some (e, d) ∧ e.erase = form.node ∧ d.1.rest = rest := by
  obtain ⟨n, hn⟩ := form.exists_braces
  have htext : c.rest = List.replicate form.braces '{' ++
      (form.body ++ (List.replicate form.braces '}' ++ rest)) := by
    simpa [text] using hc
  have hstarts : c.startsWith ['{', '{'] = true := by
    simp [Cursor.startsWith, htext, hn, List.replicate_succ]
  have hbody : (form.body ++ (List.replicate form.braces '}' ++ rest)).head?.any (· == '{') =
      false := by
    cases hfirst : form.body with
    | nil => simp [hn, List.replicate_succ]
    | cons x xs =>
      have hx := form.head_ne
      simpa [hfirst] using hx
  obtain ⟨hrun, hleft⟩ := Cursor.rest_matchWhile htext (by simp) hbody
  have hlength : (c.runOf (· == '{')).length = form.braces := by simp [hrun]
  have hsearch := form.search_eq rest
  rw [← hleft, ← hlength] at hsearch
  obtain ⟨hit, hfind, hbefore, -, hrest⟩ := Cursor.find_of_search hsearch
  unfold Expression.scan
  rw [if_pos hstarts]
  simp only [hfind, hbefore, hlength]
  exact ⟨_, _, rfl, rfl, hrest⟩

theorem Expression.scan_eq_none {c : Cursor} (h : c.startsWith ['{', '{'] = false) :
    Expression.scan c = none := by
  unfold Expression.scan
  simp [h]

theorem Expression.scan_eq_none_of_lone {c : Cursor} {rest : List Char} (hc : c.rest = '{' :: rest)
    (hlone : rest.head? ≠ some '{') : Expression.scan c = none := by
  apply scan_eq_none
  cases rest with
  | nil => simp [Cursor.startsWith, hc, List.isPrefixOf]
  | cons x rest =>
    have hx : '{' ≠ x := fun heq => hlone (by simp [← heq])
    simp [Cursor.startsWith, hc, List.isPrefixOf, hx]

end DataTemplate
