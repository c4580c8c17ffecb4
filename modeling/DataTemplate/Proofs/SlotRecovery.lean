/-
Arrays with garbage in some of their slots.  Each slot of such an array is read by itself, whatever the
others hold; only an empty last slot is lost, from one slot or from more than two.  Main statements:
`SlotText.leads` and `parse_slots_recovered`.
-/
import DataTemplate.Proofs.Recovery

namespace DataTemplate

variable {σ : Type} {n : Nat}

/-! ### Texts of arrays -/

/-- The text of a slot: white space around a value or garbage. -/
structure SlotText where
  before : Blanks
  content : Entry slotDelimiters
  after : Blanks

namespace SlotText

/-- The spelling of a slot. -/
def text (slot : SlotText) : List Char :=
  slot.before.text ++ (slot.content.text ++ slot.after.text)

/-- The value of a slot that starts at `position`, if it holds one. -/
def value? (position : Nat) (slot : SlotText) : Option Value :=
  slot.content.value? (position + byteLength slot.before.text)

/-- The problems with a slot that starts at `position`. -/
def problems (position : Nat) (slot : SlotText) : List Problem :=
  slot.content.problems .missingItem (position + byteLength slot.before.text)

end SlotText

/-- The spelling of slots with commas between them, up to the closing bracket. -/
def slotsText (first : SlotText) : List SlotText → List Char
  | [] => first.text ++ [']']
  | slot :: more => first.text ++ ',' :: slotsText slot more

/-- The slots with their positions, the first at `position`. -/
def slotsAt (position : Nat) (first : SlotText) : List SlotText → List (Nat × SlotText)
  | [] => [(position, first)]
  | slot :: more =>
    (position, first) :: slotsAt (position + byteLength first.text + 1) slot more

/-- The values of the slots, the first of which starts at `position`. -/
def slotValuesAt (position : Nat) (first : SlotText) (more : List SlotText) : List (Option Value) :=
  (slotsAt position first more).map fun (start, slot) => slot.value? start

/-- The problems with the slots, the first of which starts at `position`. -/
def slotProblemsAt (position : Nat) (first : SlotText) (more : List SlotText) : List Problem :=
  (slotsAt position first more).flatMap fun (start, slot) => slot.problems start

/-- What an array keeps of the values of its slots: an empty last one is dropped, but not from two. -/
def keptValues (values : List (Option Value)) : List (Option Value) :=
  if values.length ≠ 2 ∧ values.getLast?.any Option.isNone = true then values.dropLast else values

/-! ### Drafts -/

/-- An array under construction by the values of its slots: those of the closed ones, and that of the
slot that is open or about to be opened. -/
structure SlotDraft.Has (draft : SlotDraft) (done : List (Option Value)) (item : Option Value) :
    Prop where
  closed_eq : draft.closed.toList.map Slot.value = done
  item_eq : draft.current.bind Slot.value = item
  opened : item = none → (draft.current = none ↔ done = [])

namespace SlotDraft.Has

variable {draft : SlotDraft} {done : List (Option Value)} {item : Option Value}

theorem empty : SlotDraft.Has {} [] none := by
  constructor <;> simp

theorem awaitsValue_eq (h : draft.Has done item) : draft.awaitsValue = item.isNone := by
  rw [← h.item_eq]
  cases hcurrent : draft.current with
  | none => simp [SlotDraft.awaitsValue, hcurrent]
  | some slot => simp [SlotDraft.awaitsValue, hcurrent]

theorem fill (h : draft.Has done none) (value : Value) :
    (draft.fill value).Has done (some value) where
  closed_eq := h.closed_eq
  item_eq := rfl
  opened := by simp

theorem comma (h : draft.Has done item) (position : Nat) :
    (draft.comma position).Has (done ++ [item]) none where
  closed_eq := by
    have hitem : (draft.currentAt position).value = item := by
      rw [← h.item_eq]
      cases hcurrent : draft.current <;> simp [currentAt, hcurrent]
    simp [SlotDraft.comma, h.closed_eq, hitem]
  item_eq := rfl
  opened := by simp [SlotDraft.comma]

theorem slots_eq (h : draft.Has done item) (hcurrent : draft.current ≠ none) :
    draft.slots.map Slot.value = done ++ [item] := by
  obtain ⟨slot, hslot⟩ := Option.ne_none_iff_exists'.mp hcurrent
  simp [slots, hslot, h.closed_eq, ← h.item_eq]

/-- A finished array keeps what is to be kept of its slots. -/
theorem finish_eq (h : draft.Has done item) :
    draft.finish.map Slot.value = keptValues (done ++ [item]) := by
  have hawaits := h.awaitsValue_eq
  by_cases hcurrent : draft.current = none
  · have hitem : item = none := by simp [← h.item_eq, hcurrent]
    have hdone := (h.opened hitem).mp hcurrent
    have hclosed : draft.closed.toList = [] := by simpa [hdone] using h.closed_eq
    simp [SlotDraft.finish, slots, hcurrent, hclosed, hdone, hitem, keptValues]
  · have hslots := h.slots_eq hcurrent
    have hlength : draft.slots.length = done.length + 1 := by
      simpa using congrArg List.length hslots
    unfold SlotDraft.finish keptValues
    rw [hawaits, hlength]
    cases item with
    | some value => simp [hslots]
    | none =>
      have hdone : done ≠ [] := fun hdone => hcurrent ((h.opened rfl).mpr hdone)
      have hpositive := List.length_pos_iff.mpr hdone
      by_cases hmany : 2 < done.length + 1
      · have htwo : done.length ≠ 1 := by omega
        simp [hmany, htwo, List.map_dropLast, hslots]
      · have htwo : done.length = 1 := by omega
        simp [htwo, hslots]

end SlotDraft.Has

/-! ### Rounds -/

theorem recoverSlot_of_landing {c : Cursor} {x : Char} {rest : List Char} (hrest : c.rest = x :: rest)
    (hx : x ∉ slotDelimiters) {landing : Landing c}
    (hland : nextDelimiter? slotDelimiters c = some landing) (hlt : c < landing.here) :
    recoverSlot c x rest hrest hx = ⟨landing.here, hlt⟩ := by
  unfold recoverSlot
  split
  · rename_i other hother
    obtain rfl := Option.some.inj (hother.symm.trans hland)
    rfl
  · simp_all

/-- A round that meets garbage reports it and goes on at the next delimiter. -/
theorem slotStep_garbage (g : Garbage slotDelimiters) (rule : ValueRule σ n) {c : Cursor}
    {s : Session σ} {rest : List Char} (hs : s.Lenient) (hc : c.rest = g.text ++ rest)
    (hn : c.rest.length < n) {draft : SlotDraft} (hopen : draft.awaitsValue = true)
    (hnone : rule c hn s = (none, s)) {landing : Landing c}
    (hland : nextDelimiter? slotDelimiters c = some landing) (hlt : c < landing.here) :
    slotStep rule c hn draft s =
      .again ⟨landing.here, hlt⟩ draft (s.commit .missingItem c.position) := by
  have hhead : c.rest = g.first :: (g.more ++ rest) := hc
  have hfree := g.free g.first List.mem_cons_self
  have hother : g.first ≠ ']' ∧ g.first ≠ ',' := by
    constructor <;> intro hx <;> exact hfree (by simp [hx, slotDelimiters])
  have hcomment : c.comment? = none :=
    Cursor.comment?_eq_none (by simpa [hhead] using g.not_comment)
  have hmissing : draft.missing = .missingItem := by simp [SlotDraft.missing, hopen]
  have hgo := ((Session.Adds.commit hs .missingItem c.position).lenient hs).neutral.going
  rw [slotStep_cons rule hhead]
  simp only [hother, dite_false, hcomment, hopen, if_true, hnone, hmissing, hgo]
  rw [recoverSlot_of_landing hhead _ hland hlt]
  rfl

section Rounds

variable {c : Cursor} {s : Session σ} {draft : SlotDraft} {done : List (Option Value)}

/-- The text of a slot leads to the delimiter behind it, with what the slot holds. -/
theorem SlotText.leads (slot : SlotText) {x : Char} {rest : List Char} (hx : x ∈ slotDelimiters)
    (hs : s.Lenient) (hdraft : draft.Has done none) (hc : c.rest = slot.text ++ x :: rest) :
    ∃ d draft' t, LeadsTo (slotStep (n := n) valueRule) c draft s d draft' t ∧
      c.Moves slot.text d ∧ draft'.Has done (slot.value? c.position) ∧
      s.Adds (slot.problems c.position) t := by
  have hbreak : (slotDelimiters.all breakChars.contains) = true := by decide
  have hopen : draft.awaitsValue = true := hdraft.awaitsValue_eq
  have htext : c.rest = slot.before.text ++ (slot.content.text ++ (slot.after.text ++ x :: rest)) := by
    simpa [SlotText.text] using hc
  obtain ⟨d, hbefore, hd, hrest⟩ := slot.before.leads (slotStep valueRule) draft hs.neutral.going htext
  rw [value?, problems, ← hd.position_eq, SlotText.text]
  generalize slot.content = content at hrest ⊢
  cases content with
  | value v =>
    have hend : tokenMayEnd (slot.after.text ++ x :: rest) = true :=
      slot.after.tokenMayEnd (tokenMayEnd_cons (by simpa using List.all_eq_true.mp hbreak x hx))
    obtain ⟨e, t, hvalue, he, hquiet⟩ := v.finds hs.neutral hrest hend
    obtain ⟨y, tail, hhead, hy⟩ := v.head
    have hfirst : d.rest = y :: (tail ++ (slot.after.text ++ x :: rest)) := by
      rw [hrest, Entry.text, hhead, List.cons_append]
    have hround := leadsTo_of_again hs.neutral.going
      (head?_any_isBlank hfirst (isBlank_of_not_mem_breakChars hy)) fun hn =>
        slotStep_value (valueRule (n := n)) hfirst hy hn hopen hvalue
    obtain ⟨f, hafter, hf, -⟩ := slot.after.leads (slotStep valueRule) _
      (hquiet.neutral hs.neutral).going (he.rest_of hrest)
    exact ⟨f, _, t, (hbefore.trans hround).trans hafter, hd.trans (he.trans hf), hdraft.fill _,
      .of_quiet hquiet⟩
  | garbage g =>
    have hnone := readValue_garbage g hrest s
    obtain ⟨landing, hland, -, he⟩ := g.nextDelimiter? slot.after hx (by decide) hrest
    have hlt := he.lt (by simp [Garbage.text])
    have hfirst : d.rest = g.first :: (g.more ++ (slot.after.text ++ x :: rest)) := hrest
    have hround := leadsTo_of_again hs.neutral.going (head?_any_isBlank hfirst g.not_blank) fun hn =>
      slotStep_garbage g (valueRule (n := n)) hs hrest hn hopen hnone hland hlt
    exact ⟨landing.here, draft, _, hbefore.trans hround, hd.trans he, hdraft, .commit hs _ _⟩

/-- The slots that are left of an array lead behind its bracket. -/
theorem slots_endAt (first : SlotText) (more : List SlotText) {rest : List Char} (hs : s.Lenient)
    (hdraft : draft.Has done none) (hc : c.rest = slotsText first more ++ rest) :
    ∃ e last t, EndsAt (slotStep (n := n) valueRule) c draft s e last t ∧
      c.Moves (slotsText first more) e ∧
      last.finish.map Slot.value = keptValues (done ++ slotValuesAt c.position first more) ∧
      s.Adds (slotProblemsAt c.position first more) t := by
  induction more generalizing c s draft done first with
  | nil =>
    have htext : c.rest = first.text ++ ']' :: rest := by simpa [slotsText] using hc
    obtain ⟨d, last, t, hleads, hd, hlast, hadds⟩ := first.leads (n := n) (by decide) hs hdraft htext
    have hhead := hd.rest_of htext
    have hend : EndsAt (slotStep (n := n) valueRule) d last t _ last t :=
      roundsEnd_of_stop (hadds.lenient hs).neutral.going (head?_any_isBlank hhead (by decide))
        fun hn => slotStep_close (valueRule (n := n)) hhead hn last
    refine ⟨_, last, t, hleads.endsAt hend, hd.trans (Cursor.moves_next hhead), hlast.finish_eq, ?_⟩
    simpa [slotProblemsAt, slotsAt] using hadds
  | cons slot more ih =>
    have htext : c.rest = first.text ++ ',' :: (slotsText slot more ++ rest) := by
      simpa [slotsText] using hc
    obtain ⟨d, draft', t, hleads, hd, hdraft', hadds⟩ :=
      first.leads (n := n) (by decide) hs hdraft htext
    have ht := hadds.lenient hs
    have hhead := hd.rest_of htext
    have hcomma := leadsTo_of_again ht.neutral.going (head?_any_isBlank hhead (by decide)) fun hn =>
      slotStep_comma (valueRule (n := n)) hhead hn draft'
    have hnext := hd.trans (Cursor.moves_next hhead)
    obtain ⟨e, last, u, hend, he, hlast, hmore⟩ :=
      ih slot ht (hdraft'.comma d.position) (Cursor.rest_next hhead)
    have hposition : (d.next (Cursor.rest_ne_nil hhead)).1.position =
        c.position + byteLength first.text + 1 := by
      rw [(Cursor.moves_next hhead).position_eq, hd.position_eq]
      rfl
    rw [hposition] at hlast hmore
    refine ⟨e, last, u, (hleads.trans hcomma).endsAt hend, ?_, ?_, ?_⟩
    · simpa [slotsText] using hnext.trans he
    · simpa [slotValuesAt, slotsAt] using hlast
    · simpa [slotProblemsAt, slotsAt] using hadds.trans hmore

end Rounds

/-! ### Arrays -/

/-- Under recovery an array with garbage in some of its slots is read slot by slot.  Each garbage is
reported once, at its first character, and each value is the one that its text is alone, moved along;
the slots are kept but for an empty last one of one or of more than two. -/
theorem parse_slots_recovered (options : ReadOptions) (first : SlotText) (more : List SlotText) :
    ∃ document slots, parse { options with onError := .recover }
        (String.ofList ('[' :: slotsText first more)) = .ok document ∧
      document.root = some (.array ⟨0, byteLength ('[' :: slotsText first more)⟩ slots) ∧
      slots.map Slot.value = keptValues (slotValuesAt 1 first more) ∧
      document.problems = slotProblemsAt 1 first more ∧ document.readAsString = false := by
  obtain ⟨s, hplain, hgo, hparse⟩ := parse_of_readValue { options with onError := .recover }
    ('[' :: slotsText first more) (tokenMayStart_cons (by decide))
  have hhead : (Cursor.ofText ('[' :: slotsText first more)).rest = '[' :: slotsText first more := rfl
  have hnext : (Cursor.next _ (Cursor.rest_ne_nil hhead)).1.rest = slotsText first more ++ [] := by
    rw [Cursor.rest_next hhead, List.append_nil]
  obtain ⟨e, last, t, hend, he, hlast, hadds⟩ :=
    slots_endAt first more ⟨hplain.neutral, hgo⟩ .empty hnext
  obtain ⟨d, hread, hd⟩ := readValue_of_slots hhead hend
  obtain ⟨document, hok, hroot, -, -, hproblems, hstring⟩ :=
    hparse hread (hd.trans (he.rest_of hnext)) (.inr ⟨rfl, rfl⟩)
  have hstop : e.position = byteLength ('[' :: slotsText first more) := by
    rw [((Cursor.moves_next hhead).trans he).position_eq]
    exact Nat.zero_add _
  rw [hstop] at hroot
  refine ⟨document, last.finish, hok, hroot, hlast, ?_, hstring⟩
  rw [hproblems]
  exact hadds.problems_eq.trans (by rw [hplain.none_met]; rfl)

end DataTemplate
