/-
The search for the next delimiter beside the walk.  The search jumps from one delimiter or opening
bracket to the next and adds up offsets; it comes to the delimiter that the walk comes to, and every
delimiter that both leave behind stands inside a balanced group.  Main statements:
`Cursor.findDelimiterFrom_eq`, `sheltered_of_passed` and `Cursor.findDelimiter_walks`.
-/
import DataTemplate.Proofs.BracketRuns
import DataTemplate.Proofs.Loops

namespace DataTemplate

variable {delimiters : List Char}

/-! ### The search and the walk -/

namespace Cursor

variable {c : Cursor}

/-- A text at a later place, as the search reports it that was asked of `c`. -/
def foundAt (c : Cursor) : List Char × Cursor → Found
  | (text, d) => ⟨text, d.position - c.position, d.position - c.position + byteLength text⟩

theorem Hit.advance_start {needles : List (List Char)} (hit : c.Hit needles) :
    hit.start.advance (byteLength hit.needle) = hit.stop := by
  have hpeek : hit.start.peek (byteLength hit.needle) = hit.needle := by
    rw [peek, hit.spell.rest_eq, cutBytes_byteLength]
  have hmoves := hit.start.moves_advance (byteLength hit.needle)
  rw [hpeek] at hmoves
  exact hmoves.unique hit.spell

/-- One round of the search is one iteration of the walk's loop. -/
theorem findDelimiterFrom_body {scan : Cursor} (hle : c ≤ scan) :
    c.findDelimiterFrom delimiters scan =
      match (delimiterLoop delimiters).body scan with
      | .leave answer => answer.map c.foundAt
      | .again d => c.findDelimiterFrom delimiters d := by
  rw [findDelimiterFrom, delimiterLoop]
  simp only [walkStops]
  cases scan.find ((delimiters ++ ['(', '[', '{']).map fun stop => [stop]) none with
  | none => rfl
  | some hit =>
    by_cases hdelimiter : hit.needle ∈ delimiters.map fun delimiter => [delimiter]
    · have hbefore := position_le_of_le hle
      have hafter := position_le_of_le hit.le_start
      have hoffset : scan.position - c.position + (hit.start.position - scan.position) =
          hit.start.position - c.position := by omega
      have hstops := List.contains_iff_mem.mpr hdelimiter
      simp only [if_pos hdelimiter, if_pos hstops, hoffset, Option.map_some, foundAt]
    · have hgoes := mt List.contains_iff_mem.mp hdelimiter
      simp only [if_neg hdelimiter, if_neg hgoes, hit.advance_start]
      cases hit.start.matchBalanced bracketGroups ['\\'] with
      | none => rfl
      | some found => rfl

/-- From any later place the search comes to the delimiter that the walk from there comes to. -/
theorem findDelimiterFrom_eq {scan : Cursor} (hle : c ≤ scan) :
    c.findDelimiterFrom delimiters scan = (walkTo delimiters scan).map c.foundAt := by
  rw [findDelimiterFrom_body hle]
  rcases delimiterLoop_body delimiters scan with ⟨d, hagain, hwalk⟩ | hleave
  · have hlt := delimiterLoop_lt hagain
    have hshorter := length_lt_of_lt hlt
    rw [hagain, hwalk]
    exact findDelimiterFrom_eq (le_trans hle (le_of_lt hlt))
  · rw [hleave]
termination_by scan.rest.length

end Cursor

/-! ### What the walk passes by -/

/-- A byte position that lies inside a balanced group of a text. -/
def Sheltered (text : List Char) (offset : Nat) : Prop :=
  ∃ before run after, text = before ++ (run ++ after) ∧ BracketGroup bracketGroups ['\\'] run ∧
    byteLength before ≤ offset ∧ offset < byteLength before + byteLength run

/-- One of the delimiters stands at a byte position of a text. -/
def DelimiterAt (delimiters text : List Char) (offset : Nat) : Prop :=
  ∃ before x after, text = before ++ x :: after ∧ x ∈ delimiters ∧ byteLength before = offset

theorem Sheltered.behind {text : List Char} {offset : Nat} (h : Sheltered text offset)
    (front : List Char) : Sheltered (front ++ text) (byteLength front + offset) := by
  obtain ⟨before, run, after, rfl, hgroup, hle, hlt⟩ := h
  refine ⟨front ++ before, run, after, by simp, hgroup, ?_, ?_⟩
  · rw [byteLength_append]
    omega
  · rw [byteLength_append]
    omega

/-- A step of the walk that goes over a later character goes over a balanced group. -/
theorem sheltered_of_stride {x y : Char} {text before more after : List Char} (hne : x ≠ y)
    (htext : y :: text = before ++ x :: (more ++ after))
    (hstride : strideText (y :: text) = before ++ x :: more) :
    Sheltered (y :: text) (byteLength before) := by
  cases hrun : balancedRun bracketGroups ['\\'] (y :: text) with
  | none =>
    simp only [strideText, hrun] at hstride
    cases before with
    | nil => exact absurd (List.cons.inj hstride).1.symm hne
    | cons z before => simp at hstride
  | some found =>
    simp only [strideText, hrun] at hstride
    have hpositive := x.utf8Size_pos
    refine ⟨[], found.1, after, ?_, group_of_balancedRun hrun, Nat.zero_le _, ?_⟩
    · simp [htext, hstride]
    · simp only [hstride, byteLength_append, byteLength_cons, byteLength_nil]
      omega

/-- A delimiter that the walk has passed, or that it never comes to, is inside a balanced group. -/
theorem sheltered_of_passed {c : Cursor} {before after : List Char} {x : Char}
    (hx : x ∈ delimiters) (hc : c.rest = before ++ x :: after)
    (hpassed : ∀ landing, nextDelimiter? delimiters c = some landing →
      c.position + byteLength before < landing.here.position) :
    Sheltered c.rest (byteLength before) := by
  have hne : c.rest ≠ [] := by simp [hc]
  obtain ⟨y, text, hhead⟩ := List.exists_cons_of_ne_nil hne
  by_cases hy : y ∈ delimiters
  · obtain ⟨landing, hland, -, hhere⟩ := nextDelimiter?_here hhead hy
    have hless := hpassed landing hland
    rw [hhere] at hless
    omega
  · have hother : x ≠ y := fun heq => hy (heq ▸ hx)
    have hmoves := Cursor.moves_stride hne
    have hwalk := nextDelimiter?_stride hhead hy
    have hshorter := Cursor.length_lt_of_lt (c.stride hne).2
    generalize c.stride hne = d at hmoves hwalk hshorter
    rcases append_cons_eq_append_iff.mp (hc.symm.trans hmoves.rest_eq) with
      ⟨more, hstride, rfl⟩ | ⟨later, rfl, hlater⟩
    · rw [hhead] at hc hstride ⊢
      exact sheltered_of_stride hother hc hstride
    · -- behind the step the walk goes on in the same way
      have hsheltered : Sheltered d.1.rest (byteLength later) := by
        apply sheltered_of_passed hx hlater
        intro landing hland
        have hless := hpassed (landing.ofLE (Cursor.le_of_lt d.2)) (by rw [hwalk, hland]; rfl)
        rw [byteLength_append, ← Nat.add_assoc, ← hmoves.position_eq] at hless
        exact hless
      have hbehind := hsheltered.behind (strideText c.rest)
      rwa [← hmoves.rest_eq, ← byteLength_append] at hbehind
termination_by c.rest.length

/-! ### What the search answers -/

namespace Cursor

variable {c : Cursor}

/-- The place of a landing, as the search reports it that was asked of `c`. -/
def landed (c : Cursor) (landing : Landing c) : Found :=
  ⟨[landing.delimiter], landing.here.position - c.position, landing.after.position - c.position⟩

theorem foundAt_landing (landing : Landing c) :
    c.foundAt ([landing.delimiter], landing.here) = c.landed landing := by
  have hbefore := position_le_of_le landing.reach
  have hafter := landing.pass.position_eq
  simp only [foundAt, landed, Found.mk.injEq, true_and]
  omega

/-- For up to three delimiters the search is the walk. -/
theorem findDelimiter_eq (hcount : delimiters.length ≤ 3) (c : Cursor) :
    c.findDelimiter delimiters = (nextDelimiter? delimiters c).map c.landed := by
  rw [findDelimiter, List.take_of_length_le hcount, findDelimiterFrom_eq c.le_refl, walkTo,
    Option.map_map]
  exact congrArg (Option.map · _) (funext foundAt_landing)

/-- A landing splits the rest of the text at its delimiter. -/
theorem landed_split (landing : Landing c) :
    ∃ before after, c.rest = before ++ landing.delimiter :: after ∧
      c.landed landing = ⟨[landing.delimiter], byteLength before,
        byteLength before + landing.delimiter.utf8Size⟩ := by
  obtain ⟨before, hreach⟩ := landing.reach
  have hstart := hreach.position_eq
  have hstop := landing.pass.position_eq
  refine ⟨before, landing.after.rest, ?_, ?_⟩
  · rw [hreach.rest_eq, landing.pass.rest_eq]
    rfl
  · simp only [landed, Found.mk.injEq, true_and]
    simp only [byteLength_cons, byteLength_nil] at hstop
    omega

/-- The search for the next of up to three delimiters answers with the delimiter that the walk comes
to, at the place where it stands.  Every delimiter in front of it, or every delimiter of the text if
there is no answer, stands inside a balanced group. -/
theorem findDelimiter_walks (hcount : delimiters.length ≤ 3) (c : Cursor) :
    c.findDelimiter delimiters = (nextDelimiter? delimiters c).map c.landed ∧
    (∀ found, c.findDelimiter delimiters = some found →
      (∃ before x after, c.rest = before ++ x :: after ∧ x ∈ delimiters ∧
        found = ⟨[x], byteLength before, byteLength before + x.utf8Size⟩) ∧
      ∀ offset, offset < found.offset → DelimiterAt delimiters c.rest offset →
        Sheltered c.rest offset) ∧
    (c.findDelimiter delimiters = none →
      ∀ offset, DelimiterAt delimiters c.rest offset → Sheltered c.rest offset) := by
  refine ⟨findDelimiter_eq hcount c, ?_, ?_⟩
  · intro found hfound
    rw [findDelimiter_eq hcount] at hfound
    obtain ⟨landing, hland, rfl⟩ := Option.map_eq_some_iff.mp hfound
    constructor
    · obtain ⟨before, after, hrest, hanswer⟩ := landed_split landing
      exact ⟨before, _, after, hrest, nextDelimiter?_delimiter_mem hland, hanswer⟩
    · rintro offset hless ⟨before, x, after, hrest, hx, rfl⟩
      apply sheltered_of_passed hx hrest
      intro landing' hland'
      obtain rfl := Option.some.inj (hland.symm.trans hland')
      exact Nat.add_lt_of_lt_sub' hless
  · rintro hnone offset ⟨before, x, after, hrest, hx, rfl⟩
    rw [findDelimiter_eq hcount, Option.map_eq_none_iff] at hnone
    apply sheltered_of_passed hx hrest
    simp [hnone]

/-- The comma between the parentheses is passed over, the bracket that is never closed is not. -/
theorem findDelimiter_walks_mismatched :
    [',', '}'].length ≤ 3 ∧
    (nextDelimiter? [',', '}'] (ofText ['é', '(', '1', ',', ')', '[', '2', ')', ','])).map
      (landed _) = some ⟨[','], 9, 10⟩ ∧
    Sheltered ['é', '(', '1', ',', ')', '[', '2', ')', ','] 4 := by
  have hcount : [',', '}'].length ≤ 3 := by decide
  have hwalks := findDelimiter_walks hcount (ofText ['é', '(', '1', ',', ')', '[', '2', ')', ','])
  have hanswer : (ofText ['é', '(', '1', ',', ')', '[', '2', ')', ',']).findDelimiter [',', '}'] =
      some ⟨[','], 9, 10⟩ := by decide +kernel
  refine ⟨hcount, hwalks.1.symm.trans hanswer, (hwalks.2.1 _ hanswer).2 4 (by decide) ?_⟩
  exact ⟨['é', '(', '1'], ',', [')', '[', '2', ')', ','], rfl, by decide, by decide⟩

end Cursor

end DataTemplate
