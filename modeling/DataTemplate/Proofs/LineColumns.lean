/-
Lines and columns as places of a text.  A character moves a place on to the next column, a line feed to
the next line, so places grow with positions, and a line and a column lead back to the one position
that they stand for.  Main statement: `Problem.lineColumn_identifies`.
-/
import DataTemplate.Proofs.ByteCursors
import DataTemplate.Reading.Problem

namespace DataTemplate

/-! ### Ways to a place -/

/-- `front` is `n` whole lines: each ends with a line feed, the only one in it. -/
inductive WholeLines : Nat → List Char → Prop
  | none : WholeLines 0 []
  | more {n : Nat} {front line : List Char} (hfront : WholeLines n front) (hline : '\n' ∉ line) :
      WholeLines (n + 1) (front ++ line ++ ['\n'])

/-- A line and a column lead to a byte position of a text.  From behind the line feeds of the lines in
front of it, or from the start of the text, one walks as many characters as the column says, none of
them a line feed. -/
def LineColumn.LeadsTo (source : List Char) (place : LineColumn) (position : Nat) : Prop :=
  ∃ (n : Nat) (front line rest : List Char), WholeLines n front ∧ '\n' ∉ line ∧
    source = front ++ line ++ rest ∧ place = ⟨n + 1, line.length + 1⟩ ∧
    position = byteLength front + byteLength line

/-- A byte position between the first byte of a character and its end. -/
def SplitsCharacter (source : List Char) (position : Nat) : Prop :=
  ∃ (before : List Char) (c : Char) (after : List Char), source = before ++ c :: after ∧
    byteLength before < position ∧ position < byteLength before + c.utf8Size

namespace LineColumn

/-- Places are ordered by line, and within a line by column. -/
instance : LT LineColumn := ⟨fun a b => a.line < b.line ∨ a.line = b.line ∧ a.column < b.column⟩

theorem lt_iff {a b : LineColumn} :
    a < b ↔ a.line < b.line ∨ a.line = b.line ∧ a.column < b.column := Iff.rfl

theorem lt_irrefl (a : LineColumn) : ¬ a < a := by
  rw [lt_iff]
  omega

theorem lt_trans {a b c : LineColumn} (hab : a < b) (hbc : b < c) : a < c := by
  rw [lt_iff] at hab hbc ⊢
  omega

/-! ### One character further on -/

/-- The place behind a character. -/
def next (place : LineColumn) (c : Char) : LineColumn :=
  if c = '\n' then ⟨place.line + 1, 1⟩ else ⟨place.line, place.column + 1⟩

theorem lt_next (place : LineColumn) (c : Char) : place < place.next c := by
  rw [lt_iff, next]
  split
  · exact .inl (Nat.lt_succ_self _)
  · exact .inr ⟨rfl, Nat.lt_succ_self _⟩

theorem after_concat (text : List Char) (c : Char) : after (text ++ [c]) = (after text).next c := by
  by_cases hc : c = '\n'
  · simp [after, next, hc]
  · simp [after, next, hc]

/-- Places grow along a text. -/
theorem after_lt_append (text : List Char) {more : List Char} (hmore : more ≠ []) :
    after text < after (text ++ more) := by
  induction more generalizing text with
  | nil => exact absurd rfl hmore
  | cons c more ih =>
    have hstep : after text < after (text ++ [c]) := by
      rw [after_concat]
      exact lt_next _ c
    by_cases hnil : more = []
    · rwa [hnil]
    · rw [List.append_cons]
      exact lt_trans hstep (ih (text ++ [c]) hnil)

/-- Characters other than line feeds stay on the line. -/
theorem after_append_line (text : List Char) {line : List Char} (hline : '\n' ∉ line) :
    after (text ++ line) = ⟨(after text).line, (after text).column + line.length⟩ := by
  induction line generalizing text with
  | nil => simp
  | cons c line ih =>
    obtain ⟨hc, hmore⟩ := not_or.mp (mt List.mem_cons.mpr hline)
    rw [List.append_cons, ih (text ++ [c]) hmore, after_concat, next, if_neg (Ne.symm hc),
      List.length_cons, Nat.add_right_comm, Nat.add_assoc]

/-! ### Lines of a text -/

theorem after_wholeLines {n : Nat} {front : List Char} (h : WholeLines n front) :
    after front = ⟨n + 1, 1⟩ := by
  induction h with
  | none => rfl
  | more _ hline ih => rw [after_concat, after_append_line _ hline, ih, next, if_pos rfl]

/-- Behind whole lines and a part of a line, the lines and the characters of the part are counted. -/
theorem after_lines {n : Nat} {front line : List Char} (hfront : WholeLines n front)
    (hline : '\n' ∉ line) : after (front ++ line) = ⟨n + 1, line.length + 1⟩ := by
  rw [after_append_line front hline, after_wholeLines hfront, Nat.add_comm 1]

/-- Whole lines, a part of one, and any text behind them are whole lines and a part of one. -/
theorem exists_wholeLines_append {n : Nat} {front line : List Char} (hfront : WholeLines n front)
    (hline : '\n' ∉ line) (text : List Char) : ∃ (n' : Nat) (front' line' : List Char),
    WholeLines n' front' ∧ '\n' ∉ line' ∧ front ++ line ++ text = front' ++ line' := by
  induction text generalizing n front line with
  | nil => exact ⟨n, front, line, hfront, hline, List.append_nil _⟩
  | cons c text ih =>
    rw [List.append_cons]
    by_cases hc : c = '\n'
    · subst hc
      simpa using ih (hfront.more hline) List.not_mem_nil
    · have hlonger : '\n' ∉ line ++ [c] := by simpa [hline] using Ne.symm hc
      simpa using ih hfront hlonger

/-- Every text is whole lines and a part of one. -/
theorem exists_wholeLines (text : List Char) : ∃ (n : Nat) (front line : List Char),
    WholeLines n front ∧ '\n' ∉ line ∧ text = front ++ line :=
  exists_wholeLines_append .none List.not_mem_nil text

/-! ### Places and positions -/

theorem at_byteLength (before rest : List Char) :
    LineColumn.at (before ++ rest) (byteLength before) = after before := by
  rw [LineColumn.at, textBefore_byteLength]

/-- The place of a position between two characters is the one that leads there, and no other. -/
theorem leadsTo_iff {source : List Char} {place : LineColumn} {position : Nat} :
    place.LeadsTo source position ↔
      IsBoundary source position ∧ LineColumn.at source position = place := by
  constructor
  · rintro ⟨n, front, line, rest, hfront, hline, rfl, rfl, rfl⟩
    rw [← byteLength_append, at_byteLength]
    exact ⟨⟨front ++ line, rest, rfl, rfl⟩, after_lines hfront hline⟩
  · rintro ⟨⟨before, rest, rfl, rfl⟩, rfl⟩
    obtain ⟨n, front, line, hfront, hline, rfl⟩ := exists_wholeLines before
    refine ⟨n, front, line, rest, hfront, hline, rfl, ?_, byteLength_append front line⟩
    rw [at_byteLength, after_lines hfront hline]

theorem at_lt_at {source : List Char} {p q : Nat} (hp : IsBoundary source p)
    (hq : IsBoundary source q) (hlt : p < q) : LineColumn.at source p < LineColumn.at source q := by
  obtain ⟨before, rest, hsource, rfl⟩ := hp
  obtain ⟨further, rest', hsource', rfl⟩ := hq
  have hat : LineColumn.at source (byteLength before) = after before := by
    rw [hsource, at_byteLength]
  have hat' : LineColumn.at source (byteLength further) = after further := by
    rw [hsource', at_byteLength]
  rw [hat, hat']
  rcases List.prefix_or_prefix_of_prefix ⟨rest, hsource.symm⟩ ⟨rest', hsource'.symm⟩ with h | h
  · obtain ⟨more, rfl⟩ := h
    apply after_lt_append
    rintro rfl
    simp at hlt
  · obtain ⟨more, rfl⟩ := h
    rw [byteLength_append] at hlt
    omega

/-- Positions between characters are ordered as their places are. -/
theorem at_lt_at_iff {source : List Char} {p q : Nat} (hp : IsBoundary source p)
    (hq : IsBoundary source q) :
    LineColumn.at source p < LineColumn.at source q ↔ p < q := by
  constructor
  · intro hlt
    apply Nat.lt_of_not_le
    intro hle
    rcases Nat.lt_or_eq_of_le hle with hgt | rfl
    · exact lt_irrefl _ (lt_trans hlt (at_lt_at hq hp hgt))
    · exact lt_irrefl _ hlt
  · exact at_lt_at hp hq

theorem at_inj {source : List Char} {p q : Nat} (hp : IsBoundary source p)
    (hq : IsBoundary source q) (heq : LineColumn.at source p = LineColumn.at source q) : p = q := by
  apply Nat.le_antisymm
  · apply Nat.le_of_not_lt
    intro hlt
    exact lt_irrefl _ (heq ▸ at_lt_at hq hp hlt)
  · apply Nat.le_of_not_lt
    intro hlt
    exact lt_irrefl _ (heq ▸ at_lt_at hp hq hlt)

end LineColumn

/-! ### Other positions -/

/-- No position between two characters lies inside one. -/
theorem SplitsCharacter.not_isBoundary {source : List Char} {position : Nat}
    (h : SplitsCharacter source position) : ¬ IsBoundary source position := by
  obtain ⟨before, c, after, rfl, hstart, hstop⟩ := h
  intro hboundary
  induction before generalizing position with
  | nil =>
    rw [byteLength_nil] at hstart hstop
    rcases (isBoundary_cons c after position).mp hboundary with rfl | ⟨n, -, rfl⟩
    · exact Nat.lt_irrefl 0 hstart
    · omega
  | cons d before ih =>
    rw [byteLength_cons] at hstart hstop
    rcases (isBoundary_cons d _ position).mp hboundary with rfl | ⟨n, hn, rfl⟩
    · exact Nat.not_lt_zero _ hstart
    · have hafter : byteLength before < n := by omega
      have hbefore : n < byteLength before + c.utf8Size := by omega
      exact ih hafter hbefore hn

/-- A position is between two characters, past the end, or inside a character. -/
theorem isBoundary_or (source : List Char) (position : Nat) :
    IsBoundary source position ∨ byteLength source < position ∨
      SplitsCharacter source position := by
  induction source generalizing position with
  | nil =>
    rcases Nat.eq_zero_or_pos position with rfl | hpositive
    · exact .inl ⟨[], [], rfl, rfl⟩
    · exact .inr (.inl hpositive)
  | cons c cs ih =>
    rw [isBoundary_cons, byteLength_cons]
    rcases Nat.lt_or_ge position c.utf8Size with hlt | hge
    · rcases Nat.eq_zero_or_pos position with rfl | hpositive
      · exact .inl (.inl rfl)
      · exact .inr (.inr ⟨[], c, cs, rfl, hpositive, by simpa using hlt⟩)
    · obtain ⟨n, rfl⟩ := Nat.exists_eq_add_of_le hge
      rcases ih n with hn | hpast | ⟨before, d, after, rfl, hstart, hstop⟩
      · exact .inl (.inr ⟨n, hn, rfl⟩)
      · exact .inr (.inl (Nat.add_lt_add_left hpast _))
      · refine .inr (.inr ⟨c :: before, d, after, rfl, ?_, ?_⟩)
        · exact Nat.add_lt_add_left hstart _
        · rw [byteLength_cons, Nat.add_assoc]
          exact Nat.add_lt_add_left hstop _

theorem not_isBoundary_iff {source : List Char} {position : Nat} :
    ¬ IsBoundary source position ↔
      byteLength source < position ∨ SplitsCharacter source position := by
  constructor
  · exact (isBoundary_or source position).resolve_left
  · rintro (hpast | hsplit) hboundary
    · exact Nat.not_lt.mpr hboundary.le hpast
    · exact hsplit.not_isBoundary hboundary

/-- All of a text counts as in front of a position that is not between two characters. -/
theorem textBefore_of_not_isBoundary {source : List Char} {position : Nat}
    (h : ¬ IsBoundary source position) : textBefore source position = source := by
  have hne : byteLength (cutBytes position source).1 ≠ position := by
    intro heq
    exact h ⟨_, _, (cutBytes_append position source).symm, heq.symm⟩
  simp [textBefore, hne]

theorem LineColumn.at_end (source : List Char) :
    LineColumn.at source (byteLength source) = .after source := by
  simpa using at_byteLength source []

namespace Problem

/-- The line and the column of a problem identify its position.  They lead to the position, and no
other line and column do; they differ for different positions and grow with them; and a position past
the end of the text or inside a character has those of the end. -/
theorem lineColumn_identifies (source : List Char) :
    (∀ p : Problem, IsBoundary source p.position → ∀ place : LineColumn,
      p.lineColumn source = place ↔ place.LeadsTo source p.position) ∧
    (∀ p q : Problem, IsBoundary source p.position → IsBoundary source q.position →
      (p.lineColumn source = q.lineColumn source ↔ p.position = q.position) ∧
      (p.lineColumn source < q.lineColumn source ↔ p.position < q.position)) ∧
    ∀ p q : Problem, byteLength source < p.position ∨ SplitsCharacter source p.position →
      q.position = byteLength source → p.lineColumn source = q.lineColumn source := by
  refine ⟨?_, ?_, ?_⟩
  · intro p hp place
    rw [LineColumn.leadsTo_iff, lineColumn]
    exact ⟨fun h => ⟨hp, h⟩, fun h => h.2⟩
  · intro p q hp hq
    refine ⟨⟨LineColumn.at_inj hp hq, ?_⟩, LineColumn.at_lt_at_iff hp hq⟩
    intro heq
    rw [lineColumn, heq, lineColumn]
  · intro p q hp hq
    have hwhole := textBefore_of_not_isBoundary (not_isBoundary_iff.mpr hp)
    rw [lineColumn, lineColumn, hq, LineColumn.at_end, LineColumn.at, hwhole]

/-- Lines may be empty or end with a carriage return, and columns count characters of any width. -/
theorem lineColumn_identifies_wide : ∃ (source : List Char) (p q r e : Problem),
    source = ['a', '\r', '\n', '\n', 'é', '€', 'x'] ∧
    (p.position = 6 ∧ IsBoundary source 6 ∧ LineColumn.LeadsTo source ⟨3, 2⟩ 6) ∧
    (q.position = 9 ∧ IsBoundary source 9 ∧ p.lineColumn source < q.lineColumn source) ∧
    (r.position = 7 ∧ SplitsCharacter source 7 ∧ e.position = byteLength source ∧
      r.lineColumn source = e.lineColumn source ∧ e.lineColumn source = ⟨3, 4⟩) := by
  obtain ⟨hplace, horder, hend⟩ :=
    lineColumn_identifies ['a', '\r', '\n', '\n', 'é', '€', 'x']
  have hp : IsBoundary ['a', '\r', '\n', '\n', 'é', '€', 'x'] 6 :=
    ⟨['a', '\r', '\n', '\n', 'é'], ['€', 'x'], rfl, by decide⟩
  have hq : IsBoundary ['a', '\r', '\n', '\n', 'é', '€', 'x'] 9 :=
    ⟨['a', '\r', '\n', '\n', 'é', '€'], ['x'], rfl, by decide⟩
  have hr : SplitsCharacter ['a', '\r', '\n', '\n', 'é', '€', 'x'] 7 :=
    ⟨['a', '\r', '\n', '\n', 'é'], '€', ['x'], rfl, by decide, by decide⟩
  have he : (Problem.mk .noValue 10).position =
      byteLength ['a', '\r', '\n', '\n', 'é', '€', 'x'] := by decide
  refine ⟨_, ⟨.noValue, 6⟩, ⟨.noValue, 9⟩, ⟨.noValue, 7⟩, ⟨.noValue, 10⟩, rfl, ⟨rfl, hp, ?_⟩,
    ⟨rfl, hq, ?_⟩, ⟨rfl, hr, he, hend _ _ (.inr hr) he, by decide⟩⟩
  · exact (hplace ⟨.noValue, 6⟩ hp ⟨3, 2⟩).mp (by decide)
  · exact (horder ⟨.noValue, 6⟩ ⟨.noValue, 9⟩ hp hq).2.mpr (by decide)

end Problem

end DataTemplate
