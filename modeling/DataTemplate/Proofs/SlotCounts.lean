/-
What an array makes of the commas and values that its own loop takes.  Every slot is closed by a comma
except possibly the last, the slots stand in the order of the text, and their number follows from the
commas and from what was taken last.  The loop keeps an invariant of what it has taken so far, with
one lemma for each of the two things that it takes.
Main statements: `slotLoop_kept`, `SlotsKept.length_finish` and `SlotsKept.ordered`.
-/
import DataTemplate.Proofs.Courses
import DataTemplate.Proofs.Detached
import DataTemplate.Proofs.Locality

namespace DataTemplate

variable {σ : Type}

/-! ### What a loop takes -/

/-- A comma that stands at a place, or a value. -/
inductive SlotToken (α : Type) where
  | comma (position : Nat)
  | value (value : α)

namespace SlotToken

variable {α : Type}

/-- Whether it is a comma. -/
def isComma : SlotToken α → Bool
  | comma _ => true
  | value _ => false

/-- Where it is, if it is a comma. -/
def comma? : SlotToken α → Option Nat
  | comma position => some position
  | value _ => none

/-- The value that it is. -/
def value? : SlotToken α → Option α
  | comma _ => none
  | value v => some v

end SlotToken

/-- The comma or the value that the next iteration of an array takes. -/
def slotToken? (a : LoopState σ SlotDraft) : Option (SlotToken Value) :=
  let c := a.place.skipBlanks
  if c.rest.head? = some ',' then some (.comma c.position)
  else if a.draft.awaitsValue then (readValue c a.session).1.map fun found => .value found.1
  else none

/-- What the iterations in some states take. -/
def slotTokens (states : List (LoopState σ SlotDraft)) : List (SlotToken Value) :=
  states.filterMap slotToken?

theorem slotTokens_concat (states : List (LoopState σ SlotDraft)) (b : LoopState σ SlotDraft) :
    slotTokens (states ++ [b]) = slotTokens states ++ (slotToken? b).toList := by
  rw [slotTokens, List.filterMap_append]
  cases hb : slotToken? b <;> simp [slotTokens, hb]

/-- How many slots an array has: none if nothing was taken, as many as commas if there are two or
more and no value follows the last of them, and else one more. -/
def slotCount {α : Type} (tokens : List (SlotToken α)) : Nat :=
  let commas := tokens.countP SlotToken.isComma
  match tokens.getLast? with
  | none => 0
  | some last => if 2 ≤ commas && last.isComma then commas else commas + 1

/-! ### Slots -/

/-- Where a slot and its comma stand. -/
def Slot.partSpans (slot : Slot Value) : List Span :=
  slot.valueSpan :: (slot.comma.map markSpan).toList

namespace SlotDraft

variable {draft : SlotDraft} {start stop position : Nat} {value : Value}

/-- A comma comes behind all slots of an array, and an empty slot behind the comma. -/
theorem row_comma (hopen : draft.OpenEnded)
    (h : Span.Row start stop (draft.slots.flatMap Slot.partSpans)) (hle : stop ≤ position) :
    Span.Row start (position + 1) ((draft.comma position).slots.flatMap Slot.partSpans) := by
  have hbehind {spans : List Span} (hspans : Span.Row start position spans) :
      Span.Row start (position + 1)
        (spans ++ [markSpan position] ++ [⟨position + 1, position + 1⟩]) :=
    (hspans.concat (markSpan position) (Nat.le_refl _) (Nat.le_succ _)).concat
      ⟨position + 1, position + 1⟩ (Nat.le_refl _) (Nat.le_refl _)
  cases hcurrent : draft.current with
  | none =>
    have hgap := h.concat ⟨position, position⟩ hle (Nat.le_refl _)
    simpa [slots, comma, currentAt, hcurrent, Slot.partSpans, Slot.valueSpan] using hbehind hgap
  | some slot =>
    have hcomma := hopen slot hcurrent
    simpa [slots, comma, currentAt, hcurrent, Slot.partSpans, Slot.valueSpan, hcomma] using
      hbehind (h.mono_right hle)

/-- A value comes behind all slots of an array. -/
theorem row_fill (hopen : draft.OpenEnded) (hawaits : draft.awaitsValue = true)
    (h : Span.Row start stop (draft.slots.flatMap Slot.partSpans)) (hle : stop ≤ value.span.start)
    (hspan : value.span.start ≤ value.span.stop) :
    Span.Row start value.span.stop ((draft.fill value).slots.flatMap Slot.partSpans) := by
  cases hcurrent : draft.current with
  | none =>
    simpa [slots, fill, currentAt, hcurrent, Slot.partSpans, Slot.valueSpan] using
      h.concat value.span hle hspan
  | some slot =>
    have hvalue : slot.value = none := by simpa [awaitsValue, hcurrent] using hawaits
    have hcomma := hopen slot hcurrent
    rw [slots, hcurrent, List.flatMap_append] at h
    obtain ⟨middle, hmiddle, hclosed⟩ := h.init
    simpa [slots, fill, currentAt, hcurrent, Slot.partSpans, Slot.valueSpan, hcomma] using
      hclosed.concat value.span (Nat.le_trans hmiddle hle) hspan

end SlotDraft

/-- What an array has made of what it took between two places. -/
structure SlotsKept (start stop : Nat) (tokens : List (SlotToken Value)) (draft : SlotDraft) : Prop where
  closed_size : draft.closed.size = tokens.countP SlotToken.isComma
  current_eq_none : draft.current = none ↔ tokens = []
  awaits : draft.awaitsValue = tokens.getLast?.all SlotToken.isComma
  closed : ∀ slot ∈ draft.closed.toList, slot.comma.isSome = true
  openEnded : draft.OpenEnded
  row : Span.Row start stop (draft.slots.flatMap Slot.partSpans)
  commas : slotCommas draft.slots = tokens.filterMap SlotToken.comma?
  values : slotValues draft.slots = tokens.filterMap SlotToken.value?

namespace SlotsKept

variable {start stop next : Nat} {tokens : List (SlotToken Value)} {draft : SlotDraft}

theorem nil (h : start ≤ stop) : SlotsKept start stop [] {} where
  closed_size := rfl
  current_eq_none := by simp
  awaits := rfl
  closed := by simp
  openEnded := by simp [SlotDraft.OpenEnded]
  row := h
  commas := rfl
  values := rfl

theorem mono (h : SlotsKept start stop tokens draft) (hle : stop ≤ next) :
    SlotsKept start next tokens draft :=
  { h with row := h.row.mono_right hle }

theorem comma (h : SlotsKept start stop tokens draft) {position : Nat} (hle : stop ≤ position) :
    SlotsKept start (position + 1) (tokens ++ [.comma position]) (draft.comma position) where
  closed_size := by simp [SlotDraft.comma, h.closed_size, SlotToken.isComma]
  current_eq_none := by simp [SlotDraft.comma]
  awaits := by simp [SlotDraft.awaitsValue, SlotDraft.comma, SlotToken.isComma]
  closed := by
    intro slot hslot
    rw [SlotDraft.comma, Array.toList_push, List.mem_append, List.mem_singleton] at hslot
    rcases hslot with hslot | rfl
    · exact h.closed slot hslot
    · rfl
  openEnded := by
    rintro slot hslot
    obtain rfl := Option.some.inj hslot
    rfl
  row := SlotDraft.row_comma h.openEnded h.row hle
  commas := by
    rw [SlotDraft.commas_comma h.openEnded, h.commas]
    simp [SlotToken.comma?]
  values := by
    rw [SlotDraft.values_comma, h.values]
    simp [SlotToken.value?]

theorem fill (h : SlotsKept start stop tokens draft) (hawaits : draft.awaitsValue = true)
    {value : Value} (hle : stop ≤ value.span.start)
    (hspan : value.span.start ≤ value.span.stop) :
    SlotsKept start value.span.stop (tokens ++ [.value value]) (draft.fill value) where
  closed_size := by simp [SlotDraft.fill, h.closed_size, SlotToken.isComma]
  current_eq_none := by simp [SlotDraft.fill]
  awaits := by simp [SlotDraft.awaitsValue, SlotDraft.fill, SlotToken.isComma]
  closed := h.closed
  openEnded := by
    rintro slot hslot
    obtain rfl := Option.some.inj hslot
    cases hcurrent : draft.current with
    | none => simp [SlotDraft.currentAt, hcurrent]
    | some last => simpa [SlotDraft.currentAt, hcurrent] using h.openEnded last hcurrent
  row := SlotDraft.row_fill h.openEnded hawaits h.row hle hspan
  commas := by
    rw [SlotDraft.commas_fill, h.commas]
    simp [SlotToken.comma?]
  values := by
    rw [SlotDraft.values_fill hawaits, h.values]
    simp [SlotToken.value?]

/-- No slot was closed before one was opened. -/
theorem opened (h : SlotsKept start stop tokens draft) : draft.Opened := by
  intro hcurrent
  have hsize := h.closed_size
  rw [h.current_eq_none.mp hcurrent] at hsize
  exact Array.eq_empty_of_size_eq_zero hsize

/-- There is a slot for each comma, and one more if anything was taken. -/
theorem length_slots (h : SlotsKept start stop tokens draft) (hne : tokens ≠ []) :
    draft.slots.length = tokens.countP SlotToken.isComma + 1 := by
  cases hcurrent : draft.current with
  | none => exact absurd (h.current_eq_none.mp hcurrent) hne
  | some slot => simp [SlotDraft.slots, hcurrent, h.closed_size]

/-- The number of slots follows from what was taken. -/
theorem length_finish (h : SlotsKept start stop tokens draft) :
    draft.finish.length = slotCount tokens := by
  cases hlast : tokens.getLast? with
  | none =>
    obtain rfl := List.getLast?_eq_none_iff.mp hlast
    have hcurrent := h.current_eq_none.mpr rfl
    have hempty := h.opened hcurrent
    simp [SlotDraft.finish, SlotDraft.slots, hcurrent, hempty, slotCount]
  | some last =>
    have hne : tokens ≠ [] := by
      rintro rfl
      simp at hlast
    have hlength := h.length_slots hne
    have hawaits := h.awaits
    rw [hlast, Option.all_some] at hawaits
    rw [slotCount, hlast, SlotDraft.finish, hawaits, hlength]
    dsimp only
    cases hcomma : last.isComma with
    | false => simp [hlength]
    | true =>
      have hone : 1 ≤ tokens.countP SlotToken.isComma :=
        List.countP_pos_iff.mpr ⟨last, List.mem_of_getLast? hlast, hcomma⟩
      by_cases htwo : 2 ≤ tokens.countP SlotToken.isComma
      · -- the empty slot behind the last of several commas is dropped
        have hdrops : 2 < tokens.countP SlotToken.isComma + 1 := Nat.lt_succ_of_le htwo
        simp [htwo, hdrops, hlength]
      · have honly : tokens.countP SlotToken.isComma = 1 := by omega
        simp [honly, hlength]

end SlotsKept

/-! ### The loop -/

/-- What an iteration makes of what it takes. -/
inductive SlotTaken (a next : LoopState σ SlotDraft) : Option (SlotToken Value) → Prop
  | nothing (hdraft : next.draft = a.draft) : SlotTaken a next none
  | comma (hdraft : next.draft = a.draft.comma a.place.skipBlanks.position)
      (hplace : next.place.position = a.place.skipBlanks.position + 1) :
      SlotTaken a next (some (.comma a.place.skipBlanks.position))
  | value {v : Value} (hawaits : a.draft.awaitsValue = true) (hdraft : next.draft = a.draft.fill v)
      (hspan : v.span = ⟨a.place.skipBlanks.position, next.place.position⟩)
      (hle : a.place.skipBlanks ≤ next.place) : SlotTaken a next (some (.value v))

section Loop

variable {a next : LoopState σ SlotDraft}

theorem slotToken?_of_comma {rest : List Char} (hrest : a.place.skipBlanks.rest = ',' :: rest) :
    slotToken? a = some (.comma a.place.skipBlanks.position) := by
  simp [slotToken?, hrest]

/-- An iteration at a comma takes it. -/
theorem slotLoop_comma {rest : List Char} (hrest : a.place.skipBlanks.rest = ',' :: rest) :
    (slotLoop readValue).body a =
      .again ⟨(a.place.skipBlanks.next (Cursor.rest_ne_nil hrest)).1,
        a.draft.comma a.place.skipBlanks.position, a.session⟩ := by
  have hstep := slotStep_comma (ValueReader.rule readValue) (s := a.session) hrest
    (Nat.lt_succ_self _) a.draft
  exact congrArg Round.pass hstep

/-- An iteration away from a comma takes the value that it reads, if it awaits one. -/
theorem slotToken?_of_not_comma (hcomma : a.place.skipBlanks.rest.head? ≠ some ',') :
    slotToken? a = if a.draft.awaitsValue then
      (readValue a.place.skipBlanks a.session).1.map fun found => .value found.1 else none :=
  if_neg hcomma

theorem slotToken?_of_none (hcomma : a.place.skipBlanks.rest.head? ≠ some ',')
    (hnone : a.draft.awaitsValue = true →
      readValue a.place.skipBlanks a.session = (none, a.session)) : slotToken? a = none := by
  rw [slotToken?_of_not_comma hcomma]
  split
  · rw [hnone ‹_›]
    rfl
  · rfl

theorem readValue_of_break {c : Cursor} {x : Char} {rest : List Char} (hc : c.rest = x :: rest)
    (hx : x ∈ breakChars) (s : Session σ) : readValue c s = (none, s) := by
  rcases hread : readValue c s with ⟨_ | ⟨v, d⟩, t⟩
  · rw [readValue_none hread]
  · obtain ⟨y, tail, hy, hbreak⟩ := readValue_head hread
    obtain ⟨rfl, -⟩ := List.cons.inj (hc.symm.trans hy)
    exact absurd hx hbreak

theorem slotToken?_of_break {x : Char} {rest : List Char}
    (hrest : a.place.skipBlanks.rest = x :: rest) (hx : x ∈ breakChars) (hcomma : x ≠ ',') :
    slotToken? a = none :=
  slotToken?_of_none (by simpa [hrest] using hcomma) fun _ => readValue_of_break hrest hx a.session

theorem slotLoop_taken (h : (slotLoop readValue).body a = .again next) :
    SlotTaken a next (slotToken? a) := by
  by_cases hcomma : a.place.skipBlanks.rest.head? = some ','
  · obtain ⟨rest, hrest⟩ := List.head?_eq_some_iff.mp hcomma
    obtain rfl := Pass.again.inj ((slotLoop_comma hrest).symm.trans h)
    rw [slotToken?_of_comma hrest]
    exact .comma rfl ((Cursor.moves_next hrest).position_succ (by decide))
  · obtain ⟨round, hround, hpass⟩ := slotLoop_pass a
    have hnext := hpass.symm.trans h
    cases hround with
    | ended | closed | halt => simp [Round.pass] at hnext
    | comma hd => exact absurd (by rw [hd.rest_eq]; rfl) hcomma
    | comment hd =>
      obtain rfl := Pass.again.inj hnext
      obtain ⟨rest, hrest⟩ := List.head?_eq_some_iff.mp (Cursor.head?_of_comment? hd)
      rw [slotToken?_of_break hrest (by decide) (by decide)]
      exact .nothing rfl
    | @value _ d _ _ hawaits hvalue =>
      obtain rfl := Pass.again.inj hnext
      rw [slotToken?_of_not_comma hcomma, if_pos hawaits, hvalue]
      exact .value hawaits rfl (readValue_placed hvalue).1 (Cursor.le_of_lt d.2)
    | recover hnone =>
      obtain rfl := Pass.again.inj hnext
      rw [slotToken?_of_none hcomma hnone]
      exact .nothing rfl

/-- The last iteration takes nothing. -/
theorem slotLoop_left {e : LoopEnd σ SlotDraft} (h : (slotLoop readValue).body a = .leave e) :
    slotToken? a = none := by
  by_cases hcomma : a.place.skipBlanks.rest.head? = some ','
  · obtain ⟨rest, hrest⟩ := List.head?_eq_some_iff.mp hcomma
    simp [slotLoop_comma hrest] at h
  · obtain ⟨round, hround, hpass⟩ := slotLoop_pass a
    have hleave := hpass.symm.trans h
    cases hround with
    | comma | comment | value | recover => simp [Round.pass] at hleave
    | ended hend => exact slotToken?_of_none hcomma fun _ => readValue_end hend a.session
    | closed hd => exact slotToken?_of_break hd.rest_eq (by decide) (by decide)
    | halt hnone => exact slotToken?_of_none hcomma hnone

/-- Whatever the loop of an array takes, it keeps up the invariant. -/
theorem slotLoop_kept {inner : Cursor} {s : Session σ} {states : List (LoopState σ SlotDraft)}
    {b : LoopState σ SlotDraft} (h : (slotLoop readValue).Goes ⟨inner, {}, s⟩ states b) :
    SlotsKept inner.position b.place.position (slotTokens states) b.draft := by
  induction h with
  | start => exact .nil (Nat.le_refl _)
  | @again states b next _ _ hbody ih =>
    have hblank := Cursor.position_le_of_le b.place.le_skipBlanks
    have hlt := slotLoop_lt readValue hbody
    have htaken := slotLoop_taken hbody
    rw [slotTokens_concat]
    generalize slotToken? b = token at htaken
    cases htaken with
    | nothing hdraft =>
      rw [Option.toList_none, List.append_nil, hdraft]
      exact ih.mono (Cursor.position_le_of_le (Cursor.le_of_lt hlt))
    | comma hdraft hnext =>
      rw [Option.toList_some, hdraft, hnext]
      exact ih.comma hblank
    | value hawaits hdraft hspan hle =>
      have hfill := ih.fill hawaits (by rw [hspan]; exact hblank)
        (by rw [hspan]; exact Cursor.position_le_of_le hle)
      rwa [hspan, ← hdraft] at hfill

/-- What an array ends with, by what its loop took. -/
theorem slotLoop_course_kept {inner : Cursor} {s : Session σ}
    {states : List (LoopState σ SlotDraft)} {e : LoopEnd σ SlotDraft}
    (h : (slotLoop readValue).Course ⟨inner, {}, s⟩ states e) :
    SlotsKept inner.position e.1.position (slotTokens states) e.2.1 := by
  cases h with
  | exit hgoes hexit =>
    have hends := LoopState.endsAs_of_exit hexit
    rw [hends.draft_eq]
    exact (slotLoop_kept hgoes).mono (Cursor.position_le_of_le hends.place_le)
  | leave hgoes _ hbody =>
    have hends := slotLoop_endsAs hbody
    rw [slotTokens_concat, slotLoop_left hbody, Option.toList_none, List.append_nil,
      hends.draft_eq]
    exact (slotLoop_kept hgoes).mono (Cursor.position_le_of_le hends.place_le)

end Loop

/-! ### Arrays -/

/-- The slots of an array: all but the last have a comma, each comma stands behind the value or the
gap of its slot and in front of those of all later slots. -/
structure SlotsOrdered (slots : List (Slot Value)) : Prop where
  separated : ∀ slot ∈ slots.dropLast, slot.comma.isSome = true
  span_le : ∀ slot ∈ slots, slot.valueSpan.start ≤ slot.valueSpan.stop
  value_le : ∀ slot ∈ slots, ∀ q, slot.comma = some q → slot.valueSpan.stop ≤ q
  comma_lt : slots.Pairwise fun slot later => ∀ q, slot.comma = some q → q < later.valueSpan.start

theorem SlotsOrdered.of_row {slots : List (Slot Value)} {start stop : Nat}
    (hseparated : ∀ slot ∈ slots.dropLast, slot.comma.isSome = true)
    (h : Span.Row start stop (slots.flatMap Slot.partSpans)) : SlotsOrdered slots := by
  have hspan (slot : Slot Value) : slot.valueSpan ∈ slot.partSpans := List.mem_cons_self
  have hcomma {slot : Slot Value} {q : Nat} (hq : slot.comma = some q) :
      markSpan q ∈ slot.partSpans := by simp [Slot.partSpans, hq]
  obtain ⟨hinside, hacross⟩ := List.pairwise_flatMap.mp h.pairwise
  refine ⟨hseparated, ?_, ?_, ?_⟩
  · intro slot hslot
    exact h.le_of_mem _ (List.mem_flatMap.mpr ⟨slot, hslot, hspan slot⟩)
  · intro slot hslot q hq
    have hparts := hinside slot hslot
    rw [Slot.partSpans, hq] at hparts
    exact (List.pairwise_cons.mp hparts).1 (markSpan q) (by simp)
  · exact hacross.imp fun hparts q hq => hparts _ (hcomma hq) _ (hspan _)

theorem SlotsKept.ordered {start stop : Nat} {tokens : List (SlotToken Value)} {draft : SlotDraft}
    (h : SlotsKept start stop tokens draft) : SlotsOrdered draft.finish := by
  have hrow := h.row
  rw [SlotDraft.slots, List.flatMap_append, Span.Row.append_iff] at hrow
  obtain ⟨middle, hclosed, -⟩ := hrow
  rcases SlotDraft.finish_cases h.opened with hkeeps | ⟨slot, -, -, hdrops⟩
  · rw [hkeeps]
    refine .of_row (fun slot hslot => h.closed slot ?_) h.row
    cases hcurrent : draft.current with
    | none => simp [SlotDraft.slots, hcurrent, h.opened hcurrent] at hslot
    | some last => simpa [SlotDraft.slots, hcurrent] using hslot
  · rw [hdrops]
    exact .of_row (fun slot hslot => h.closed slot ((List.dropLast_subset _) hslot)) hclosed

end DataTemplate
