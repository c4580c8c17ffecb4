/-
Getting past text that is no value.  Garbage is a run of text that starts no token and holds no
delimiter and no opening bracket; the reader reports it once, at its first character, and goes on at
the delimiter behind it.  Main statements: `mayStartValue_iff`, `readValue_garbage`,
`Passable.nextDelimiter?` and `Garbage.nextDelimiter?`.
-/
import DataTemplate.Proofs.Standalone

namespace DataTemplate

variable {σ : Type} {n : Nat}

/-! ### Sessions that report -/

/-- Between `s` and the later moment `t` exactly `problems` were reported, in this order, and the
reading went on. -/
structure Session.Adds (s : Session σ) (problems : List Problem) (t : Session σ) : Prop where
  hooks_eq : t.hooks = s.hooks
  haltOnProblem_eq : t.haltOnProblem = s.haltOnProblem
  handled_eq : t.handled = s.handled
  halted_eq : t.halted = s.halted
  problems_eq : t.problems.toList = s.problems.toList ++ problems

/-- A session that takes any number of problems and goes on. -/
structure Session.Lenient (s : Session σ) : Prop where
  neutral : s.Neutral
  goes_on : s.haltOnProblem = false

namespace Session.Adds

variable {s t u : Session σ} {problems others : List Problem}

theorem of_quiet (h : s.Quiet t) : s.Adds [] t where
  hooks_eq := h.hooks_eq
  haltOnProblem_eq := h.haltOnProblem_eq
  handled_eq := h.handled_eq
  halted_eq := h.halted_eq
  problems_eq := by rw [h.problems_eq, List.append_nil]

theorem refl (s : Session σ) : s.Adds [] s := of_quiet (.refl s)

theorem trans (h : s.Adds problems t) (k : t.Adds others u) : s.Adds (problems ++ others) u where
  hooks_eq := k.hooks_eq.trans h.hooks_eq
  haltOnProblem_eq := k.haltOnProblem_eq.trans h.haltOnProblem_eq
  handled_eq := k.handled_eq.trans h.handled_eq
  halted_eq := k.halted_eq.trans h.halted_eq
  problems_eq := by rw [k.problems_eq, h.problems_eq, List.append_assoc]

theorem quiet (h : s.Adds problems t) (k : t.Quiet u) : s.Adds problems u := by
  simpa using h.trans (of_quiet k)

theorem commit (h : s.Lenient) (cause : Cause) (position : Nat) :
    s.Adds [⟨cause, position⟩] (s.commit cause position) := by
  have hgo := h.neutral.going
  simp only [Session.commit, hgo]
  exact ⟨rfl, rfl, rfl, h.goes_on.trans hgo.symm, by simp [Session.push]⟩

theorem lenient (h : s.Adds problems t) (hs : s.Lenient) : t.Lenient where
  neutral := ⟨h.halted_eq.trans hs.neutral.going, h.handled_eq.trans hs.neutral.none_handled,
    h.hooks_eq ▸ hs.neutral.keeps⟩
  goes_on := h.haltOnProblem_eq.trans hs.goes_on

end Session.Adds

theorem Session.Quiet.lenient {s t : Session σ} (h : s.Quiet t) (hs : s.Lenient) : t.Lenient :=
  (Session.Adds.of_quiet h).lenient hs

/-! ### White space -/

/-- White space between two tokens. -/
structure Blanks where
  text : List Char
  blank : ∀ x ∈ text, isBlank x = true

theorem Cursor.Moves.rest_of {c d : Cursor} {text rest : List Char} (h : c.Moves text d)
    (hc : c.rest = text ++ rest) : d.rest = rest :=
  List.append_cancel_left (h.rest_eq.symm.trans hc)

theorem Cursor.exists_moves {c : Cursor} {text rest : List Char} (hc : c.rest = text ++ rest) :
    ∃ d, c.Moves text d ∧ d.rest = rest := by
  have hmoves := c.moves_past hc.symm
  exact ⟨_, hmoves, hmoves.rest_of hc⟩

theorem Cursor.Moves.of_position {c d e : Cursor} {text : List Char} (hd : c.Moves text d)
    (he : c ≤ e) (h : e.position = d.position) : c.Moves text e := by
  obtain ⟨more, hmore⟩ := Cursor.le_of_position_le hd.le he (Nat.le_of_eq h.symm)
  have hnothing : byteLength more = 0 := by
    have hposition := hmore.position_eq
    omega
  obtain rfl := byteLength_eq_zero_iff.mp hnothing
  obtain rfl := hmore.unique (.refl d)
  exact hd

theorem Cursor.skipBlanks_of_blanks {text : List Char} (h : ∀ x ∈ text, isBlank x = true)
    {c d : Cursor} (hd : c.Moves text d) : c.skipBlanks = d.skipBlanks := by
  induction text generalizing c with
  | nil => rw [hd.unique (.refl c)]
  | cons x text ih =>
    obtain ⟨hx, htext⟩ := List.forall_mem_cons.mp h
    have hsplit : c.Moves ([x] ++ text) d := hd
    obtain ⟨e, he, hmore⟩ := hsplit.split
    rw [Cursor.skipBlanks_of_blank he hx, ih htext hmore]

/-- White space leads to what comes after it. -/
theorem Blanks.leads {δ : Type} (blanks : Blanks) (step : RoundStep σ δ n) (draft : δ) {c : Cursor}
    {s : Session σ} {rest : List Char} (hgo : s.halted = false) (hc : c.rest = blanks.text ++ rest) :
    ∃ d, LeadsTo step c draft s d draft s ∧ c.Moves blanks.text d ∧ d.rest = rest := by
  obtain ⟨d, hmoves, hd⟩ := Cursor.exists_moves hc
  exact ⟨d, leadsTo_of_skipBlanks hgo hmoves.le (Cursor.skipBlanks_of_blanks blanks.blank hmoves),
    hmoves, hd⟩

theorem Blanks.tokenMayEnd (blanks : Blanks) {rest : List Char}
    (hrest : DataTemplate.tokenMayEnd rest = true) :
    DataTemplate.tokenMayEnd (blanks.text ++ rest) = true := by
  obtain ⟨gap, hgap⟩ := exists_gap_of_blanks blanks.blank
  rw [← hgap]
  exact gap.tokenMayEnd_text hrest

/-! ### Garbage -/

/-- Whether a value may start with a character. -/
def mayStartValue (x : Char) : Bool :=
  openers.contains x || isDecimalDigit x || ['+', '-', '.'].contains x ||
    keywords.any fun (word, _) => word.head? == some x

/-- Text that is no value: it starts like no token, and holds no delimiter and no opening bracket. -/
structure Garbage (delimiters : List Char) where
  first : Char
  more : List Char
  not_blank : isBlank first = false
  not_comment : first ≠ '/'
  not_value : mayStartValue first = false
  free : ∀ x ∈ first :: more, x ∉ delimiters ++ ['(', '[', '{']

/-- The spelling of garbage. -/
def Garbage.text {delimiters : List Char} (garbage : Garbage delimiters) : List Char :=
  garbage.first :: garbage.more

/-- What stands where a value belongs: a value, or garbage. -/
inductive Entry (delimiters : List Char) where
  | value (v : ValueText)
  | garbage (g : Garbage delimiters)

namespace Entry

variable {delimiters : List Char}

/-- The spelling of an entry. -/
def text : Entry delimiters → List Char
  | value v => v.text
  | garbage g => g.text

/-- The value of an entry that starts at `position`; garbage has none. -/
def value? (position : Nat) : Entry delimiters → Option Value
  | value v => some (v.value.shift position)
  | garbage _ => none

/-- The problem with an entry that starts at `position`; a value has none. -/
def problems (cause : Cause) (position : Nat) : Entry delimiters → List Problem
  | value _ => []
  | garbage _ => [⟨cause, position⟩]

end Entry

theorem ScalarForm.mayStartValue_head (form : ScalarForm) {x : Char} {text : List Char}
    (h : form.text = x :: text) : mayStartValue x = true := by
  cases form with
  | keyword word meaning hword =>
    have hhead : word.head? = some x := by rw [show word = x :: text from h]; rfl
    have hany : (keywords.any fun (word, _) => word.head? == some x) = true :=
      List.any_eq_true.mpr ⟨(word, meaning), hword, by simp [hhead]⟩
    simp only [mayStartValue, hany, Bool.or_true]
  | number numeral hproper =>
    obtain ⟨y, rest, hmagnitude, hy⟩ := Magnitude.text_head hproper
    have htext : signText numeral.sign ++ numeral.magnitude.text = x :: text := h
    cases hsign : numeral.sign with
    | some sign =>
      obtain ⟨rfl, -⟩ : sign.char = x ∧ numeral.magnitude.text = text := by
        simpa [hsign, signText] using htext
      cases sign <;> decide
    | none =>
      obtain ⟨rfl, -⟩ : y = x ∧ rest = text := by simpa [hsign, signText, hmagnitude] using htext
      rcases hy with hy | rfl
      · simp [mayStartValue, hy]
      · decide

/-- A value that is read starts with a character that may start one. -/
theorem mayStartValue_of_readValue {c : Cursor} {s t : Session σ} {value : Value} {d : c.After}
    (h : readValue c s = (some (value, d), t)) {x : Char} {rest : List Char}
    (hc : c.rest = x :: rest) : mayStartValue x = true := by
  by_cases hx : x ∈ openers
  · have hopener : openers.contains x = true := by simpa using hx
    simp only [mayStartValue, hopener, Bool.true_or]
  · rw [readValue_eq_scalar hc hx] at h
    cases hscan : Scalar.scan c with
    | none => simp [readScalar, hscan, orElse] at h
    | some found =>
      unfold Scalar.scan at hscan
      split at hscan
      · simp at hscan
      · rename_i raw meaning after hliteral
        obtain ⟨form, rfl, -⟩ := ScalarForm.of_literalAt? hliteral
        obtain ⟨y, text, htext, -⟩ := form.text_eq
        have hsplit := (literalAt?_append hliteral).1
        rw [hc, htext] at hsplit
        obtain rfl : y = x := (List.cons.inj hsplit).1
        exact form.mayStartValue_head htext

theorem exists_valueText {text : List Char} {x : Char} (hhead : text.head? = some x)
    (h : (valueOf? text).isSome = true) : ∃ v : ValueText, v.text.head? = some x :=
  ⟨⟨text, by rintro rfl; simp at hhead, h⟩, hhead⟩

theorem valueOf?_digit {x : Char} (h : isDecimalDigit x = true) :
    (valueOf? [x]).isSome = true := by
  have hall : ∀ d < 10, (valueOf? [Char.ofNat (48 + d)]).isSome = true := by decide +kernel
  simp only [isDecimalDigit, Bool.and_eq_true, decide_eq_true_eq, Char.le_def,
    UInt32.le_iff_toNat_le] at h
  have hlow : 48 ≤ x.toNat := h.1
  have hhigh : x.toNat ≤ 57 := h.2
  have hx := hall (x.toNat - 48) (by omega)
  rwa [Nat.add_sub_cancel' hlow, Char.ofNat_toNat] at hx

/-- The characters that may start a value are those that some value starts with. -/
theorem mayStartValue_iff (x : Char) :
    mayStartValue x = true ↔ ∃ v : ValueText, v.text.head? = some x := by
  constructor
  · intro h
    simp only [mayStartValue, Bool.or_eq_true, List.contains_iff_mem, List.any_eq_true,
      beq_iff_eq] at h
    rcases h with ((hopener | hdigit) | hsign) | ⟨entry, hentry, hhead⟩
    · have hall : (openers.all fun y => (valueOf?
          [y, if y = '{' then '}' else if y = '[' then ']' else y]).isSome) = true := by decide +kernel
      exact exists_valueText rfl (List.all_eq_true.mp hall x hopener)
    · exact exists_valueText rfl (valueOf?_digit hdigit)
    · have hall : (['+', '-', '.'].all fun y => (valueOf? [y, '1']).isSome) = true := by
        decide +kernel
      exact exists_valueText rfl (List.all_eq_true.mp hall x hsign)
    · have hall : (keywords.all fun entry => (valueOf? entry.1).isSome) = true := by decide +kernel
      exact exists_valueText hhead (List.all_eq_true.mp hall entry hentry)
  · rintro ⟨v, hhead⟩
    obtain ⟨rest, hrest⟩ := List.head?_eq_some_iff.mp hhead
    obtain ⟨s, d, t, -, hread, -⟩ := readValue_of_valueOf? v.ne_nil v.valueOf?_eq
    exact mayStartValue_of_readValue hread hrest

/-- Garbage is read as no value. -/
theorem readValue_garbage {delimiters : List Char} (g : Garbage delimiters) {c : Cursor}
    {rest : List Char} (hc : c.rest = g.text ++ rest) (s : Session σ) :
    readValue c s = (none, s) := by
  cases hread : readValue c s with
  | mk found t =>
    cases found with
    | none => rw [readValue_none hread]
    | some found =>
      have hhead : c.rest = g.first :: (g.more ++ rest) := hc
      have hvalue := mayStartValue_of_readValue hread hhead
      simp [g.not_value] at hvalue

/-! ### The walk to the next delimiter -/

theorem Cursor.matchBalanced_of_none {c : Cursor} {pairs : List (Char × Char)} {escapes : List Char}
    (h : balancedRun pairs escapes c.rest = none) : c.matchBalanced pairs escapes = none := by
  unfold matchBalanced
  split
  · rfl
  · simp_all

theorem Cursor.matchBalanced_of_some {c : Cursor} {pairs : List (Char × Char)}
    {escapes run rest : List Char} (h : balancedRun pairs escapes c.rest = some (run, rest)) :
    ∃ d, c.matchBalanced pairs escapes = some (run, d) ∧ c.Moves run d.1 := by
  unfold matchBalanced
  split
  · simp_all
  · rename_i other after hother
    obtain ⟨rfl, rfl⟩ := Prod.mk.inj (Option.some.inj (hother.symm.trans h))
    exact ⟨_, rfl, c.moves_past (balancedRun_append h)⟩

theorem map_behindCut_append_right {chars run rest more : List Char}
    {cut cut' : Option (List Char × List Char)}
    (hcut : ∀ {run rest}, cut = some (run, rest) → cut' = some (run, rest ++ more))
    (h : cut.map (behindCut chars) = some (run, rest)) :
    cut'.map (behindCut chars) = some (run, rest ++ more) := by
  obtain ⟨tail, htail, hrun⟩ := map_behindCut_eq_some.mp h
  exact map_behindCut_eq_some.mpr ⟨tail, hcut htail, hrun⟩

/-- A closed run stays the run when more text comes behind it. -/
theorem closeRun_append_right {pairs : List (Char × Char)}
    {escapes expected text run rest : List Char}
    (h : closeRun pairs escapes expected text = some (run, rest)) (more : List Char) :
    closeRun pairs escapes expected (text ++ more) = some (run, rest ++ more) := by
  fun_induction closeRun pairs escapes expected text generalizing run rest with
  | case1 | case2 | case5 | case8 => simp at h
  | case3 expected c hescape d ds ih =>
    simp only [List.cons_append, closeRun, hescape]
    exact map_behindCut_append_right ih h
  | case4 expected c cs hescape closer hcloser ih =>
    unfold closeRun
    simp only [List.cons_append, hescape, hcloser]
    exact map_behindCut_append_right ih h
  | case6 cs closer outer houter hescape hopen hclose =>
    obtain ⟨rfl, rfl⟩ : [closer] = run ∧ cs = rest := by simpa using h
    unfold closeRun
    simp only [List.cons_append, hescape, hopen, hclose, houter]
    rfl
  | case7 cs closer outer houter hescape hopen hclose ih =>
    unfold closeRun
    simp only [List.cons_append, hescape, hopen, hclose, houter]
    exact map_behindCut_append_right ih h
  | case9 expected c cs hescape hopen hclose ih =>
    unfold closeRun
    simp only [List.cons_append, hescape, hopen, hclose]
    exact map_behindCut_append_right ih h

/-- A balanced run stays the run when more text comes behind it. -/
theorem balancedRun_append_right {pairs : List (Char × Char)} {escapes text run rest : List Char}
    (h : balancedRun pairs escapes text = some (run, rest)) (more : List Char) :
    balancedRun pairs escapes (text ++ more) = some (run, rest ++ more) := by
  obtain ⟨x, closer, tail, hcloser, rfl, rfl⟩ := balancedRun_eq_some h
  simp only [balancedRun, hcloser, map_behindCut_eq_some] at h
  obtain ⟨inner, hinner, hrun⟩ := h
  simp only [List.cons_append, balancedRun, hcloser, map_behindCut_eq_some]
  exact ⟨inner, closeRun_append_right hinner more, hrun⟩

theorem balancedRun_eq_none {x : Char} (hx : x ∉ ['(', '[', '{']) (escapes rest : List Char) :
    balancedRun bracketGroups escapes (x :: rest) = none := by
  have hcloser : closerOf? bracketGroups x = none := by
    simp only [List.mem_cons, List.not_mem_nil, or_false, not_or] at hx
    simp [closerOf?, bracketGroups, Ne.symm hx.1, Ne.symm hx.2.1, Ne.symm hx.2.2]
  rw [balancedRun, hcloser]

/-- One step of the walk: over a balanced group, or else over one character. -/
def Cursor.stride (c : Cursor) (hne : c.rest ≠ []) : c.After :=
  match c.matchBalanced bracketGroups ['\\'] with
  | some (_, d) => d
  | none => c.next hne

section Walk

variable {delimiters : List Char} {c : Cursor} {x : Char} {rest : List Char}

theorem nextDelimiter?_here (hc : c.rest = x :: rest) (hx : x ∈ delimiters) :
    ∃ landing, nextDelimiter? delimiters c = some landing ∧ landing.delimiter = x ∧
      landing.here = c := by
  rw [nextDelimiter?]
  split
  · simp_all
  · rename_i y after hrest
    obtain ⟨rfl, rfl⟩ := List.cons.inj (hrest.symm.trans hc)
    rw [if_pos (by simpa using hx)]
    exact ⟨_, rfl, rfl, rfl⟩

theorem nextDelimiter?_stride (hc : c.rest = x :: rest) (hx : x ∉ delimiters) :
    nextDelimiter? delimiters c =
      (nextDelimiter? delimiters (c.stride (Cursor.rest_ne_nil hc)).1).map
        (Landing.ofLE (Cursor.le_of_lt (c.stride (Cursor.rest_ne_nil hc)).2)) := by
  rw [nextDelimiter?]
  split
  · simp_all
  · rename_i y after hrest
    obtain ⟨rfl, rfl⟩ := List.cons.inj (hrest.symm.trans hc)
    rw [if_neg (by simpa using hx)]
    rfl

theorem Cursor.stride_eq_next (hc : c.rest = x :: rest) (hx : x ∉ ['(', '[', '{']) :
    c.stride (Cursor.rest_ne_nil hc) = c.next (Cursor.rest_ne_nil hc) := by
  rw [stride, matchBalanced_of_none (by rw [hc]; exact balancedRun_eq_none hx _ _)]

/-- Text that the walk to the next delimiter passes over: characters that are no delimiters and open
no bracket, and balanced groups. -/
inductive Passable (delimiters : List Char) : List Char → Prop where
  | nil : Passable delimiters []
  | char {x : Char} {text : List Char} (hx : x ∉ delimiters ++ ['(', '[', '{'])
      (htext : Passable delimiters text) : Passable delimiters (x :: text)
  | group {x : Char} {run text : List Char} (hx : x ∉ delimiters)
      (hrun : balancedRun bracketGroups ['\\'] (x :: run) = some (x :: run, []))
      (htext : Passable delimiters text) : Passable delimiters (x :: (run ++ text))

namespace Passable

theorem of_free {text : List Char} (h : ∀ y ∈ text, y ∉ delimiters ++ ['(', '[', '{']) :
    Passable delimiters text := by
  induction text with
  | nil => exact .nil
  | cons x text ih =>
    obtain ⟨hx, htext⟩ := List.forall_mem_cons.mp h
    exact .char hx (ih htext)

theorem append {text more : List Char} (h : Passable delimiters text)
    (hmore : Passable delimiters more) : Passable delimiters (text ++ more) := by
  induction h with
  | nil => exact hmore
  | char hx _ ih => exact .char hx ih
  | group hx hrun _ ih =>
    rw [List.cons_append, List.append_assoc]
    exact .group hx hrun ih

/-- The walk passes over passable text and stops at the delimiter behind it. -/
theorem nextDelimiter? {text : List Char} (h : Passable delimiters text) (hx : x ∈ delimiters)
    (hc : c.rest = text ++ x :: rest) :
    ∃ landing, DataTemplate.nextDelimiter? delimiters c = some landing ∧ landing.delimiter = x ∧
      c.Moves text landing.here := by
  induction h generalizing c with
  | nil =>
    obtain ⟨landing, hland, hdelimiter, hhere⟩ := nextDelimiter?_here hc hx
    exact ⟨landing, hland, hdelimiter, by rw [hhere]; exact .refl c⟩
  | @char z text hz htext ih =>
    rw [List.mem_append, not_or] at hz
    have hhead : c.rest = z :: (text ++ x :: rest) := hc
    obtain ⟨landing, hland, hdelimiter, hmoves⟩ := ih (Cursor.rest_next hhead)
    rw [nextDelimiter?_stride hhead hz.1, Cursor.stride_eq_next hhead hz.2, hland]
    exact ⟨_, rfl, hdelimiter, (Cursor.moves_next hhead).trans hmoves⟩
  | @group z run text hz hrun htext ih =>
    have hhead : c.rest = z :: (run ++ (text ++ x :: rest)) := by
      rw [hc, List.cons_append, List.append_assoc]
    have hbalanced : balancedRun bracketGroups ['\\'] c.rest =
        some (z :: run, text ++ x :: rest) := by
      rw [hhead]
      exact balancedRun_append_right hrun _
    obtain ⟨d, hd, hrunMoves⟩ := Cursor.matchBalanced_of_some hbalanced
    have hstride : c.stride (Cursor.rest_ne_nil hhead) = d := by rw [Cursor.stride, hd]
    obtain ⟨landing, hland, hdelimiter, hmoves⟩ := ih (hrunMoves.rest_of hhead)
    rw [nextDelimiter?_stride hhead hz, hstride, hland]
    exact ⟨_, rfl, hdelimiter, hrunMoves.trans hmoves⟩

end Passable

end Walk

/-- The text of one step of the walk. -/
def strideText (text : List Char) : List Char :=
  match balancedRun bracketGroups ['\\'] text with
  | some (run, _) => run
  | none => text.take 1

theorem Cursor.moves_stride {c : Cursor} (hne : c.rest ≠ []) :
    c.Moves (strideText c.rest) (c.stride hne).1 := by
  unfold strideText stride
  cases hrun : balancedRun bracketGroups ['\\'] c.rest with
  | none =>
    obtain ⟨x, rest, hrest⟩ := List.exists_cons_of_ne_nil hne
    rw [matchBalanced_of_none hrun, hrest]
    exact moves_next hrest
  | some found =>
    obtain ⟨d, hd, hmoves⟩ := matchBalanced_of_some hrun
    rw [hd]
    exact hmoves

/-- The walk depends on nothing but the text in front of it. -/
theorem nextDelimiter?_embeds {delimiters : List Char} {k : Nat} {c c' : Cursor}
    (h : c.Embeds k [] c') {landing : Landing c} (hland : nextDelimiter? delimiters c = some landing) :
    ∃ landing', nextDelimiter? delimiters c' = some landing' ∧
      landing'.delimiter = landing.delimiter ∧ landing.here.Embeds k [] landing'.here := by
  cases hc : c.rest with
  | nil =>
    rw [nextDelimiter?] at hland
    split at hland <;> simp_all
  | cons x rest =>
    have hc' := h.rest_cons hc
    by_cases hx : x ∈ delimiters
    · obtain ⟨there, hthere, hdelimiter, hhere⟩ := nextDelimiter?_here hc hx
      obtain rfl := Option.some.inj (hthere.symm.trans hland)
      obtain ⟨there', hthere', hdelimiter', hhere'⟩ := nextDelimiter?_here hc' hx
      exact ⟨there', hthere', by rw [hdelimiter, hdelimiter'], by rw [hhere, hhere']; exact h⟩
    · rw [nextDelimiter?_stride hc hx] at hland
      obtain ⟨inner, hinner, rfl⟩ := Option.map_eq_some_iff.mp hland
      have hmoves := Cursor.moves_stride (Cursor.rest_ne_nil hc')
      rw [h.rest_eq, List.append_nil] at hmoves
      have hstride := h.of_moves (Cursor.moves_stride (Cursor.rest_ne_nil hc)) hmoves
      obtain ⟨inner', hinner', hdelimiter, hhere⟩ := nextDelimiter?_embeds hstride hinner
      rw [nextDelimiter?_stride hc' hx, hinner']
      exact ⟨_, rfl, hdelimiter, hhere⟩
termination_by c.rest.length
decreasing_by exact Cursor.length_lt_of_lt (c.stride (Cursor.rest_ne_nil hc)).2

/-! ### Delimiters behind garbage -/

/-- White space is passable, unless it is a delimiter. -/
theorem Blanks.passable {delimiters : List Char} (blanks : Blanks)
    (hblank : delimiters.any isBlank = false) : Passable delimiters blanks.text := by
  refine .of_free fun y hy hmem => ?_
  have hy := blanks.blank y hy
  rcases List.mem_append.mp hmem with hmem | hmem
  · exact List.any_eq_false.mp hblank y hmem hy
  · have hbrackets : ['(', '[', '{'].any isBlank = false := by decide
    exact List.any_eq_false.mp hbrackets y hmem hy

/-- From garbage the walk stops at the delimiter behind the white space after it. -/
theorem Garbage.nextDelimiter? {delimiters rest : List Char} (g : Garbage delimiters)
    (blanks : Blanks) {x : Char} (hx : x ∈ delimiters)
    (hblank : delimiters.any isBlank = false) {c : Cursor}
    (hc : c.rest = g.text ++ (blanks.text ++ x :: rest)) :
    ∃ landing, DataTemplate.nextDelimiter? delimiters c = some landing ∧ landing.delimiter = x ∧
      c.Moves (g.text ++ blanks.text) landing.here := by
  have htext : c.rest = (g.text ++ blanks.text) ++ x :: rest := by rw [hc, List.append_assoc]
  exact ((Passable.of_free g.free).append (blanks.passable hblank)).nextDelimiter? hx htext

end DataTemplate
