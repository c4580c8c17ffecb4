/-
Trailing commas.  A property goes on being built behind its comma, until the next key begins or a
colon turns out to belong to none.  So after a problem in place of a key the object may take another
comma for it, which replaces the first.  A property with one comma is finished there: nothing that
comes later changes it or lies in it, and only an object that recovers from a missing key has
properties with more.
Main statements: `propertyLoop_commas`, `propertyLoop_stays` and `readDocument_commas`.
-/
import DataTemplate.Proofs.Policies
import DataTemplate.Proofs.PropertyParts

namespace DataTemplate

variable {σ : Type}

/-! ### Commas -/

/-- A comma that an object takes: how many properties have begun in front of it, which of them it
belongs to, if any, and where it stands. -/
structure PropertyComma where
  begun : Nat
  owner : Option Nat
  position : Nat

namespace PropertyDraft

variable {draft : PropertyDraft} {i : Nat}

/-- The index of the property being built. -/
def owner? (draft : PropertyDraft) : Option Nat := draft.current.map fun _ => draft.finished.size

theorem length_of_owner (h : draft.owner? = some i) : draft.properties.length = i + 1 := by
  obtain ⟨p, hcurrent, rfl⟩ := Option.map_eq_some_iff.mp h
  simp [properties, hcurrent]

@[simp] theorem owner?_modify (draft : PropertyDraft) (f : Property Value → Property Value) :
    (draft.modify f).owner? = draft.owner? := by
  cases hcurrent : draft.current <;> simp [owner?, modify, hcurrent]

theorem owner?_begin (draft : PropertyDraft) (key : Key) (s : Session σ) :
    (draft.begin key s).1.owner? = some draft.properties.length := by
  rw [← draft.finished_flush s]
  rfl

/-- A change of the property being built changes the properties at its index. -/
theorem getElem?_modify (draft : PropertyDraft) (f : Property Value → Property Value) (i : Nat) :
    (draft.modify f).properties[i]? =
      if draft.owner? = some i then draft.properties[i]?.map f else draft.properties[i]? := by
  cases hcurrent : draft.current with
  | none => simp [properties, modify, owner?, hcurrent]
  | some p =>
    by_cases hi : draft.finished.size = i
    · subst hi
      simp [properties, modify, owner?, hcurrent]
    · have howner : draft.owner? ≠ some i := by simpa [owner?, hcurrent] using hi
      rw [if_neg howner]
      by_cases hlt : i < draft.finished.size
      · simp [properties, modify, hcurrent, List.getElem?_append, hlt]
      · have hpast : i - draft.finished.size ≠ 0 := by omega
        simp [properties, modify, hcurrent, List.getElem?_append, hlt, hpast]

end PropertyDraft

/-- The comma that the next iteration of an object takes. -/
def takenComma? (a : LoopState σ PropertyDraft) : Option PropertyComma :=
  let c := a.place.skipBlanks
  if a.draft.awaited = .commaOrEnd ∧ c.rest.head? = some ',' then
    some ⟨a.draft.properties.length, a.draft.owner?, c.position⟩
  else none

/-- The commas that the iterations in some states take. -/
def takenCommas (states : List (LoopState σ PropertyDraft)) : List PropertyComma :=
  states.filterMap takenComma?

theorem takenCommas_concat (states : List (LoopState σ PropertyDraft))
    (b : LoopState σ PropertyDraft) :
    takenCommas (states ++ [b]) = takenCommas states ++ (takenComma? b).toList := by
  rw [takenCommas, List.filterMap_append]
  cases hb : takenComma? b <;> simp [takenCommas, hb]

/-- Where the commas of a property stand. -/
def commasOf (i : Nat) (commas : List PropertyComma) : List Nat :=
  (commas.filter (·.owner = some i)).map (·.position)

/-- Where all commas after the beginning of a property stand. -/
def commasSince (i : Nat) (commas : List PropertyComma) : List Nat :=
  (commas.filter (i < ·.begun)).map (·.position)

theorem commasOf_concat (i : Nat) (commas : List PropertyComma) (comma : PropertyComma) :
    commasOf i (commas ++ [comma]) =
      commasOf i commas ++ if comma.owner = some i then [comma.position] else [] := by
  by_cases h : comma.owner = some i <;> simp [commasOf, h]

theorem commasSince_concat (i : Nat) (commas : List PropertyComma) (comma : PropertyComma) :
    commasSince i (commas ++ [comma]) =
      commasSince i commas ++ if i < comma.begun then [comma.position] else [] := by
  by_cases h : i < comma.begun <;> simp [commasSince, h]

/-- Since the moment `before` there was a problem of a missing key between two places, and the
reading went on. -/
structure Session.Reopens (before s : Session σ) (q r : Nat) : Prop where
  recovering : s.Recovering
  missing : ∃ problem ∈ before.added s,
    problem.cause = .missingKey ∧ q < problem.position ∧ problem.position ≤ r

theorem Session.Reopens.mono {before s t : Session σ} {q r next : Nat}
    (h : before.Reopens s q r) (hbefore : before.Grows s) (hgrows : s.Grows t) (hle : r ≤ next) :
    before.Reopens t q next := by
  obtain ⟨problem, hproblem, hcause, hlt, hstop⟩ := h.missing
  exact ⟨h.recovering.of_grows hgrows, problem,
    Session.mem_added_mono hbefore hgrows hproblem, hcause, hlt, Nat.le_trans hstop hle⟩

/-- What an object has made of the commas that it took up to a place.  The last comma of a property
is the one that it has, and between two of them there was a problem of a missing key. -/
structure CommasKept (before : Session σ) (stop : Nat) (commas : List PropertyComma)
    (draft : PropertyDraft) (s : Session σ) : Prop where
  grows : before.Grows s
  position_lt : ∀ comma ∈ commas, comma.position < stop
  begun_le : ∀ comma ∈ commas, comma.begun ≤ draft.properties.length
  begun_eq : ∀ comma ∈ commas, ∀ i, comma.owner = some i → comma.begun = i + 1
  comma_eq : ∀ i p, draft.properties[i]? = some p → p.comma = (commasOf i commas).getLast?
  first : ∀ i, commasOf i commas <+: commasSince i commas
  since : ∀ i, draft.owner? = some i → commasSince i commas = commasOf i commas
  between : ∀ i, (commasOf i commas).Pairwise (before.Reopens s)
  reopened : ∀ i, draft.owner? = some i → ∀ q ∈ commasOf i commas,
    draft.awaited = .keyOrEnd ∨ draft.awaited = .commaOrEnd ∧ before.Reopens s q stop

namespace CommasKept

variable {before s t : Session σ} {stop next : Nat} {commas : List PropertyComma}
  {draft draft' : PropertyDraft} {i : Nat} {p : Property Value}

theorem start_of_reading (s : Session σ) (stop : Nat) : CommasKept s stop [] {} s where
  grows := .refl s
  position_lt := by simp
  begun_le := by simp
  begun_eq := by simp
  comma_eq := by simp [PropertyDraft.properties]
  first _ := List.prefix_refl _
  since _ _ := rfl
  between _ := .nil
  reopened := by simp [commasOf]

/-- A property that has not begun has no commas. -/
theorem fresh (h : CommasKept before stop commas draft s) (hi : draft.properties.length ≤ i) :
    commasOf i commas = [] ∧ commasSince i commas = [] := by
  have hsince : commasSince i commas = [] := by
    rw [commasSince, List.map_eq_nil_iff, List.filter_eq_nil_iff]
    intro comma hcomma
    have hbegun := h.begun_le comma hcomma
    simp only [decide_eq_true_eq]
    omega
  exact ⟨List.prefix_nil.mp (hsince ▸ h.first i), hsince⟩

/-- While the property being built has a comma, an object waits for no part of it. -/
theorem awaited (h : CommasKept before stop commas draft s) (howner : draft.owner? = some i)
    (hp : draft.properties[i]? = some p) (hcomma : p.comma.isSome = true) :
    draft.awaited = .keyOrEnd ∨ draft.awaited = .commaOrEnd := by
  rw [h.comma_eq i p hp] at hcomma
  obtain ⟨q, hq⟩ := Option.isSome_iff_exists.mp hcomma
  exact (h.reopened i howner q (List.mem_of_getLast? hq)).imp_right And.left

/-- An iteration without a comma leaves the commas of all properties. -/
theorem settle (h : CommasKept before stop commas draft s) (hgrows : s.Grows t) (hle : stop ≤ next)
    (hlength : draft.properties.length ≤ draft'.properties.length)
    (hcommas : ∀ i p, draft'.properties[i]? = some p → p.comma = (commasOf i commas).getLast?)
    (hsince : ∀ i, draft'.owner? = some i → commasSince i commas = commasOf i commas)
    (hreopened : ∀ i, draft'.owner? = some i → ∀ q ∈ commasOf i commas,
      draft'.awaited = .keyOrEnd ∨ draft'.awaited = .commaOrEnd ∧ before.Reopens t q next) :
    CommasKept before next commas draft' t where
  grows := h.grows.trans hgrows
  position_lt comma hcomma := Nat.lt_of_lt_of_le (h.position_lt comma hcomma) hle
  begun_le comma hcomma := Nat.le_trans (h.begun_le comma hcomma) hlength
  begun_eq := h.begun_eq
  comma_eq := hcommas
  first := h.first
  since := hsince
  between i := (h.between i).imp fun hreopens => hreopens.mono h.grows hgrows (Nat.le_refl _)
  reopened := hreopened

theorem still (h : CommasKept before stop commas draft s) (hgrows : s.Grows t)
    (hle : stop ≤ next) : CommasKept before next commas draft t :=
  h.settle hgrows hle (Nat.le_refl _) h.comma_eq h.since fun i howner q hq =>
    (h.reopened i howner q hq).imp_right fun hreopened =>
      ⟨hreopened.1, hreopened.2.mono h.grows hgrows hle⟩

/-- After a problem in place of a key the property being built may get another comma. -/
theorem mark (h : CommasKept before stop commas draft s) {position : Nat}
    (hgoing : s.halted = false)
    (hgo : (s.commit draft.awaited.missing position).halted = false) (hposition : stop ≤ position)
    (hle : position ≤ next) :
    CommasKept before next commas { draft with awaited := .commaOrEnd }
      (s.commit draft.awaited.missing position) := by
  have hgrows := Session.Grows.commit s draft.awaited.missing position
  refine h.settle hgrows (Nat.le_trans hposition hle) (Nat.le_refl _) h.comma_eq h.since ?_
  intro i howner q hq
  refine .inr ⟨rfl, ?_⟩
  rcases h.reopened i howner q hq with hawaited | ⟨-, hreopens⟩
  · -- the problem in place of the key stands behind every comma taken so far
    have hmem := Session.mem_added_commit h.grows hgoing draft.awaited.missing position
    obtain ⟨comma, hcomma, rfl⟩ := List.mem_map.mp hq
    have hlt := h.position_lt comma (List.mem_filter.mp hcomma).1
    exact ⟨Session.commit_recovering hgo, _, hmem, by simp [hawaited, Awaited.missing],
      Nat.lt_of_lt_of_le hlt hposition, hle⟩
  · exact hreopens.mono h.grows hgrows (Nat.le_trans hposition hle)

/-- The colon and the value of a property come before its commas. -/
theorem part (h : CommasKept before stop commas draft s) (hgrows : s.Grows t) (hle : stop ≤ next)
    (hawaited : draft.awaited = .colon ∨ draft.awaited = .value)
    {f : Property Value → Property Value} (hf : ∀ p, (f p).comma = p.comma) (awaited : Awaited) :
    CommasKept before next commas { draft.modify f with awaited := awaited } t := by
  have howner : ({ draft.modify f with awaited := awaited } : PropertyDraft).owner? =
      draft.owner? := draft.owner?_modify f
  have hproperties (i : Nat) :
      ({ draft.modify f with awaited := awaited } : PropertyDraft).properties[i]? =
        if draft.owner? = some i then draft.properties[i]?.map f else draft.properties[i]? :=
    draft.getElem?_modify f i
  refine h.settle hgrows hle ?_ ?_ (fun i hi => h.since i (howner ▸ hi)) ?_
  · cases hcurrent : draft.current <;>
      simp [PropertyDraft.properties, PropertyDraft.modify, hcurrent]
  · intro i p hp
    rw [hproperties] at hp
    split at hp
    · obtain ⟨p', hp', rfl⟩ := Option.map_eq_some_iff.mp hp
      rw [hf, h.comma_eq i p' hp']
    · exact h.comma_eq i p hp
  · intro i hi q hq
    rcases h.reopened i (howner ▸ hi) q hq with hkey | ⟨hmark, -⟩
    · simp [hkey] at hawaited
    · simp [hmark] at hawaited

/-- The next property begins without a comma. -/
theorem begin (h : CommasKept before stop commas draft s) {key : Key} {u : Session σ}
    (hgrows : s.Grows t) (hle : stop ≤ next) :
    CommasKept before next commas (draft.begin key u).1 t := by
  refine h.settle hgrows hle (by simp [PropertyDraft.properties_begin]) ?_ ?_ ?_
  · intro i p hp
    rw [PropertyDraft.properties_begin, List.getElem?_append] at hp
    split at hp
    · exact h.comma_eq i p hp
    · rename_i hi
      obtain rfl := List.mem_singleton.mp (List.mem_of_getElem? hp)
      rw [(h.fresh (Nat.le_of_not_lt hi)).1]
      rfl
  · intro i hi
    obtain rfl := Option.some.inj ((draft.owner?_begin key u).symm.trans hi)
    rw [(h.fresh (Nat.le_refl _)).1, (h.fresh (Nat.le_refl _)).2]
  · intro i hi q hq
    obtain rfl := Option.some.inj ((draft.owner?_begin key u).symm.trans hi)
    simp [(h.fresh (Nat.le_refl _)).1] at hq

theorem detach (h : CommasKept before stop commas draft s) (hgrows : s.Grows t)
    (hle : stop ≤ next) (hcurrent : draft'.current = none)
    (hproperties : draft'.properties = draft.properties) :
    CommasKept before next commas draft' t :=
  h.settle hgrows hle (Nat.le_of_eq (congrArg List.length hproperties.symm))
    (fun i p hp => h.comma_eq i p (hproperties ▸ hp))
    (by simp [PropertyDraft.owner?, hcurrent]) (by simp [PropertyDraft.owner?, hcurrent])

/-- A comma belongs to the property being built, and takes the place of the one in front of it. -/
theorem comma (h : CommasKept before stop commas draft s)
    (hawaited : draft.awaited = .commaOrEnd) {position : Nat} (hle : stop ≤ position) :
    CommasKept before (position + 1)
      (commas ++ [⟨draft.properties.length, draft.owner?, position⟩]) (draft.comma position) s := by
  have howner : (draft.comma position).owner? = draft.owner? := draft.owner?_modify _
  have hproperties (i : Nat) : (draft.comma position).properties[i]? =
      if draft.owner? = some i then
        draft.properties[i]?.map fun p => { p with comma := some position }
      else draft.properties[i]? := draft.getElem?_modify _ i
  have hlength : (draft.comma position).properties.length = draft.properties.length := by
    cases hcurrent : draft.current <;>
      simp [PropertyDraft.properties, PropertyDraft.comma, PropertyDraft.modify, hcurrent]
  have hsince (i : Nat) (hi : draft.owner? = some i) :
      commasSince i (commas ++ [⟨draft.properties.length, draft.owner?, position⟩]) =
        commasOf i (commas ++ [⟨draft.properties.length, draft.owner?, position⟩]) := by
    have hlt : i < draft.properties.length :=
      PropertyDraft.length_of_owner hi ▸ Nat.lt_succ_self i
    rw [commasSince_concat, commasOf_concat, if_pos hi, if_pos hlt, h.since i hi]
  refine ⟨h.grows, ?_, ?_, ?_, ?_, ?_, ?_, ?_, ?_⟩
  · refine List.forall_mem_append.mpr ⟨fun comma hcomma => ?_, by simp⟩
    exact Nat.lt_succ_of_lt (Nat.lt_of_lt_of_le (h.position_lt comma hcomma) hle)
  · rw [hlength]
    exact List.forall_mem_append.mpr ⟨h.begun_le, by simp⟩
  · refine List.forall_mem_append.mpr ⟨h.begun_eq, List.forall_mem_singleton.mpr ?_⟩
    exact fun i hi => PropertyDraft.length_of_owner hi
  · intro i p hp
    rw [hproperties] at hp
    rw [commasOf_concat]
    split at hp
    · obtain ⟨p', -, rfl⟩ := Option.map_eq_some_iff.mp hp
      rw [if_pos ‹_›, List.getLast?_concat]
    · rw [if_neg ‹_›, List.append_nil, h.comma_eq i p hp]
  · intro i
    by_cases hi : draft.owner? = some i
    · exact hsince i hi ▸ List.prefix_refl _
    · rw [commasOf_concat, if_neg hi, List.append_nil, commasSince_concat]
      exact (h.first i).trans (List.prefix_append _ _)
  · exact fun i hi => hsince i (howner ▸ hi)
  · intro i
    rw [commasOf_concat]
    split
    · refine List.pairwise_append.mpr ⟨h.between i, List.pairwise_singleton _ _, ?_⟩
      intro q hq r hr
      obtain rfl := List.mem_singleton.mp hr
      rcases h.reopened i ‹_› q hq with hkey | ⟨-, hreopens⟩
      · simp [hkey] at hawaited
      · exact hreopens.mono h.grows (.refl s) hle
    · rw [List.append_nil]
      exact h.between i
  · exact fun _ _ _ _ => .inl rfl

end CommasKept

/-! ### The loop -/

/-- What an iteration of an object changes, with the comma that it takes. -/
inductive PropertyTaken (a next : LoopState σ PropertyDraft) : Option PropertyComma → Prop
  | still (hdraft : next.draft = a.draft) : PropertyTaken a next none
  | mark (hdraft : next.draft = { a.draft with awaited := .commaOrEnd })
      (hsession : next.session =
        a.session.commit a.draft.awaited.missing a.place.skipBlanks.position)
      (hgo : next.session.halted = false) (hle : a.place.skipBlanks ≤ next.place) :
      PropertyTaken a next none
  | part {f : Property Value → Property Value} {awaited : Awaited}
      (hawaited : a.draft.awaited = .colon ∨ a.draft.awaited = .value)
      (hdraft : next.draft = { a.draft.modify f with awaited := awaited })
      (hf : ∀ p, (f p).key = p.key ∧ (f p).comma = p.comma) : PropertyTaken a next none
  | key {key : Key} {t : Session σ} (hdraft : next.draft = (a.draft.begin key t).1)
      (hstart : a.place.position ≤ key.span.start) : PropertyTaken a next none
  | detach (hcurrent : next.draft.current = none)
      (hproperties : next.draft.properties = a.draft.properties) : PropertyTaken a next none
  | comma (hawaited : a.draft.awaited = .commaOrEnd)
      (hdraft : next.draft = a.draft.comma a.place.skipBlanks.position)
      (hplace : next.place.position = a.place.skipBlanks.position + 1)
      (hsession : next.session = a.session) :
      PropertyTaken a next (some
        ⟨a.draft.properties.length, a.draft.owner?, a.place.skipBlanks.position⟩)

section Loop

variable {a next : LoopState σ PropertyDraft}

theorem takenComma?_of_comma (hawaited : a.draft.awaited = .commaOrEnd)
    (hcomma : a.place.skipBlanks.rest.head? = some ',') :
    takenComma? a =
      some ⟨a.draft.properties.length, a.draft.owner?, a.place.skipBlanks.position⟩ :=
  if_pos ⟨hawaited, hcomma⟩

theorem takenComma?_of_head (h : a.place.skipBlanks.rest.head? ≠ some ',') :
    takenComma? a = none := if_neg fun hboth => h hboth.2

theorem takenComma?_of_awaited (h : a.draft.awaited ≠ .commaOrEnd) : takenComma? a = none :=
  if_neg fun hboth => h hboth.1

/-- An iteration at a comma that the object waits for takes it. -/
theorem propertyLoop_take (hawaited : a.draft.awaited = .commaOrEnd) {d : Cursor}
    (hd : a.place.skipBlanks.Moves [','] d) : (propertyLoop readValue).body a =
      .again ⟨d, a.draft.comma a.place.skipBlanks.position, a.session⟩ := by
  have hblanks : a.place.skipBlanks.skipBlanks = a.place.skipBlanks :=
    Cursor.skipBlanks_eq (head?_any_isBlank_skipBlanks a.place)
  rw [← propertyLoop_comma readValue hd hawaited]
  change propertyBody readValue _ a.draft a.session = propertyBody readValue _ a.draft a.session
  rw [hblanks]

theorem ResyncRead.taken {t : Session σ}
    (ht : t = a.session.commit a.draft.awaited.missing a.place.skipBlanks.position)
    (hgo : t.halted = false) (h : ResyncRead a.place.skipBlanks a.draft t next) :
    PropertyTaken a next none := by
  cases h with
  | lost => exact .still rfl
  | @mark landing => exact .mark rfl ht hgo landing.reach
  | @key landing key d u _ _ hkey =>
    refine .key rfl ?_
    rw [readKey_span hkey]
    exact Cursor.position_le_of_le a.place.le_skipBlanks
  | @detach => exact .detach (a.draft.current_flush _) (a.draft.properties_flush _)

theorem propertyLoop_taken (h : (propertyLoop readValue).body a = .again next) :
    PropertyTaken a next (takenComma? a) := by
  cases propertyLoop_next h with
  | comment hd =>
    rw [takenComma?_of_head (by simp [Cursor.head?_of_comment? hd])]
    exact .still rfl
  | key hawaited hkey =>
    rw [takenComma?_of_awaited (by simp [hawaited])]
    refine .key rfl ?_
    rw [readKey_span hkey]
    exact Cursor.position_le_of_le a.place.le_skipBlanks
  | colon hawaited =>
    rw [takenComma?_of_awaited (by simp [hawaited])]
    exact .part (.inl hawaited) rfl fun _ => ⟨rfl, rfl⟩
  | value hawaited =>
    rw [takenComma?_of_awaited (by simp [hawaited])]
    exact .part (.inr hawaited) rfl fun _ => ⟨rfl, rfl⟩
  | comma hawaited hd =>
    rw [takenComma?_of_comma hawaited (by rw [hd.rest_eq]; rfl)]
    exact .comma hawaited rfl (hd.position_succ (by decide)) rfl
  | resync hgo hresync =>
    by_cases htakes : a.draft.awaited = .commaOrEnd ∧ a.place.skipBlanks.rest.head? = some ','
    · -- a comma that the object waits for is no problem
      obtain ⟨hawaited, hcomma⟩ := htakes
      obtain ⟨rest, hrest⟩ := List.head?_eq_some_iff.mp hcomma
      have hmoves := Cursor.moves_next hrest
      obtain rfl := Pass.again.inj ((propertyLoop_take hawaited hmoves).symm.trans h)
      rw [takenComma?_of_comma hawaited hcomma]
      exact .comma hawaited rfl (hmoves.position_succ (by decide)) rfl
    · rw [takenComma?, if_neg htakes]
      exact hresync.taken rfl hgo

/-- The last iteration takes no comma. -/
theorem propertyLoop_left {e : LoopEnd σ PropertyDraft}
    (h : (propertyLoop readValue).body a = .leave e) : takenComma? a = none := by
  refine if_neg ?_
  rintro ⟨hawaited, hcomma⟩
  obtain ⟨rest, hrest⟩ := List.head?_eq_some_iff.mp hcomma
  simp [propertyLoop_take hawaited (Cursor.moves_next hrest)] at h

/-- The loop of an object keeps up what it has made of its commas. -/
theorem propertyLoop_commas {inner : Cursor} {s : Session σ}
    {states : List (LoopState σ PropertyDraft)} {b : LoopState σ PropertyDraft}
    (h : (propertyLoop readValue).Goes ⟨inner, {}, s⟩ states b) :
    CommasKept s b.place.position (takenCommas states) b.draft b.session := by
  induction h with
  | start => exact .start_of_reading s _
  | @again states b next _ hgo hbody ih =>
    have hblank := Cursor.position_le_of_le b.place.le_skipBlanks
    have hle := Cursor.position_le_of_le (propertyLoop_le readValue hbody)
    have hgrows := propertyLoop_grows hbody
    have htaken := propertyLoop_taken hbody
    rw [takenCommas_concat]
    generalize takenComma? b = taken at htaken
    cases htaken with
    | still hdraft =>
      rw [Option.toList_none, List.append_nil, hdraft]
      exact ih.still hgrows hle
    | mark hdraft hsession hnext hplace =>
      rw [Option.toList_none, List.append_nil, hdraft, hsession]
      rw [hsession] at hnext
      exact ih.mark (LoopState.halt?_eq_none.mp hgo) hnext hblank
        (Cursor.position_le_of_le hplace)
    | part hawaited hdraft hf =>
      rw [Option.toList_none, List.append_nil, hdraft]
      exact ih.part hgrows hle hawaited (fun p => (hf p).2) _
    | key hdraft =>
      rw [Option.toList_none, List.append_nil, hdraft]
      exact ih.begin hgrows hle
    | detach hcurrent hproperties =>
      rw [Option.toList_none, List.append_nil]
      exact ih.detach hgrows hle hcurrent hproperties
    | comma hawaited hdraft hplace hsession =>
      rw [Option.toList_some, hdraft, hplace, hsession]
      exact ih.comma hawaited hblank

/-- An iteration of an object changes nothing but the comma of a property that has one. -/
theorem PropertyTaken.stays {taken : Option PropertyComma} (h : PropertyTaken a next taken) {i : Nat}
    {p : Property Value} (hp : a.draft.properties[i]? = some p) (hcomma : p.comma.isSome = true)
    (hawaited : a.draft.owner? = some i →
      a.draft.awaited = .keyOrEnd ∨ a.draft.awaited = .commaOrEnd) :
    ∃ q, next.draft.properties[i]? = some { p with comma := some q } := by
  obtain ⟨q, hq⟩ := Option.isSome_iff_exists.mp hcomma
  have hsame : { p with comma := some q } = p := by rw [← hq]
  cases h with
  | still hdraft => exact ⟨q, by rw [hdraft, hsame, hp]⟩
  | mark hdraft => exact ⟨q, by rw [hdraft, hsame]; exact hp⟩
  | @part f awaited hpart hdraft =>
    have howner : a.draft.owner? ≠ some i := fun howner => by
      rcases hawaited howner with hkey | hmark
      · simp [hkey] at hpart
      · simp [hmark] at hpart
    refine ⟨q, ?_⟩
    rw [hdraft, hsame]
    change (a.draft.modify f).properties[i]? = _
    rw [a.draft.getElem?_modify, if_neg howner, hp]
  | key hdraft =>
    refine ⟨q, ?_⟩
    rw [hdraft, hsame, PropertyDraft.properties_begin,
      List.getElem?_append_left (List.getElem?_eq_some_iff.mp hp).1, hp]
  | detach _ hproperties => exact ⟨q, by rw [hproperties, hsame, hp]⟩
  | comma _ hdraft =>
    rw [hdraft]
    change ∃ q, (a.draft.modify _).properties[i]? = _
    rw [a.draft.getElem?_modify]
    split
    · exact ⟨_, by rw [hp, Option.map_some]⟩
    · exact ⟨q, by rw [hp, hsame]⟩

/-- A property keeps its key, and the next property begins at the place reached or behind it. -/
theorem PropertyTaken.key_of {taken : Option PropertyComma} (h : PropertyTaken a next taken)
    {i : Nat} {p : Property Value} (hp : next.draft.properties[i]? = some p) :
    (∃ p', a.draft.properties[i]? = some p' ∧ p'.key = p.key) ∨
      a.place.position ≤ p.key.span.start := by
  have hmodify {f : Property Value → Property Value}
      (hmodified : (a.draft.modify f).properties[i]? = some p) (hf : ∀ p, (f p).key = p.key) :
      ∃ p', a.draft.properties[i]? = some p' ∧ p'.key = p.key := by
    rw [a.draft.getElem?_modify] at hmodified
    split at hmodified
    · obtain ⟨p', hp', rfl⟩ := Option.map_eq_some_iff.mp hmodified
      exact ⟨p', hp', (hf p').symm⟩
    · exact ⟨p, hmodified, rfl⟩
  cases h with
  | still hdraft => exact .inl ⟨p, hdraft ▸ hp, rfl⟩
  | mark hdraft =>
    rw [hdraft] at hp
    exact .inl ⟨p, hp, rfl⟩
  | part _ hdraft hf =>
    rw [hdraft] at hp
    exact .inl (hmodify hp fun p => (hf p).1)
  | key hdraft hstart =>
    rw [hdraft, PropertyDraft.properties_begin, List.getElem?_append] at hp
    split at hp
    · exact .inl ⟨p, hp, rfl⟩
    · obtain rfl := List.mem_singleton.mp (List.mem_of_getElem? hp)
      exact .inr hstart
  | detach _ hproperties => exact .inl ⟨p, hproperties ▸ hp, rfl⟩
  | comma _ hdraft =>
    rw [hdraft] at hp
    change (a.draft.modify _).properties[i]? = _ at hp
    exact .inl (hmodify hp fun _ => rfl)

variable {start b : LoopState σ PropertyDraft} {states : List (LoopState σ PropertyDraft)}
  {i : Nat} {p : Property Value}

/-- The properties that begin after a moment stand behind the place reached then. -/
theorem propertyLoop_begun (h : (propertyLoop readValue).Goes start states b)
    (hp : b.draft.properties[i]? = some p) (hi : start.draft.properties.length ≤ i) :
    start.place.position ≤ p.key.span.start := by
  induction h generalizing p with
  | start =>
    have hlt := (List.getElem?_eq_some_iff.mp hp).1
    omega
  | again hgoes _ hbody ih =>
    rcases (propertyLoop_taken hbody).key_of hp with ⟨p', hp', hkey⟩ | hbehind
    · rw [← hkey]
      exact ih hp'
    · exact Nat.le_trans (Cursor.position_le_of_le (propertyLoop_goes_le hgoes)) hbehind

/-- Once a property has a comma, the loop changes nothing of it but the comma. -/
theorem propertyLoop_stays {inner : Cursor} {s : Session σ}
    (h : (propertyLoop readValue).Goes ⟨inner, {}, s⟩ states b) (ha : a ∈ states ++ [b])
    (hp : a.draft.properties[i]? = some p) (hcomma : p.comma.isSome = true) :
    ∃ q, b.draft.properties[i]? = some { p with comma := some q } := by
  have hlast {c : LoopState σ PropertyDraft} (hc : c.draft.properties[i]? = some p) :
      ∃ q, c.draft.properties[i]? = some { p with comma := some q } := by
    obtain ⟨q, hq⟩ := Option.isSome_iff_exists.mp hcomma
    exact ⟨q, by rw [hc, ← hq]⟩
  induction h with
  | start =>
    obtain rfl := List.mem_singleton.mp ha
    exact hlast hp
  | @again states b next hgoes _ hbody ih =>
    rcases List.mem_append.mp ha with hbefore | hnext
    · obtain ⟨q, hq⟩ := ih hbefore
      have hkept := propertyLoop_commas hgoes
      obtain ⟨r, hr⟩ := (propertyLoop_taken hbody).stays hq rfl
        fun howner => hkept.awaited howner hq rfl
      exact ⟨r, hr⟩
    · obtain rfl := List.mem_singleton.mp hnext
      exact hlast hp

/-- The iterations of a course, up to the state in which it ends. -/
theorem propertyLoop_course_ends {e : LoopEnd σ PropertyDraft}
    (h : (propertyLoop readValue).Course start states e) :
    ∃ before b, (propertyLoop readValue).Goes start before b ∧ b.EndsAs e ∧
      takenCommas states = takenCommas before ∧ (∀ a ∈ states, a ∈ before ++ [b]) ∧
      ∀ a ∈ states, ∀ next, (propertyLoop readValue).body a = .again next → a ∈ before := by
  cases h with
  | exit hgoes hexit =>
    exact ⟨states, _, hgoes, LoopState.endsAs_of_exit hexit, rfl,
      fun a ha => List.mem_append_left _ ha, fun a ha _ _ => ha⟩
  | @leave before b _ hgoes _ hbody =>
    refine ⟨before, b, hgoes, propertyLoop_endsAs hbody, ?_, fun a ha => ha, ?_⟩
    · rw [takenCommas_concat, propertyLoop_left hbody, Option.toList_none, List.append_nil]
    · intro a ha next hnext
      rcases List.mem_append.mp ha with ha | ha
      · exact ha
      · obtain rfl := List.mem_singleton.mp ha
        simp [hbody] at hnext

end Loop

/-! ### Objects -/

/-- An object was read at a place, from the moment of a session on, by a loop of its own that ran
iterations in these states. -/
def ObjectCourse (c : Cursor) (s : Session σ) (object : Value)
    (states : List (LoopState σ PropertyDraft)) : Prop :=
  ∃ inner e, c.Moves ['\x7b'] inner ∧ (propertyLoop readValue).Course ⟨inner, {}, s⟩ states e ∧
    (LoopEnd.object c e).1 = object

/-- A property of an object was finished by a comma: the first that the loop took after it began.
It ends behind that comma, and from then on it stays as it is.  What the loop then goes over, before
it comes to the next property, lies in no property. -/
structure FinishedAt (states : List (LoopState σ PropertyDraft)) (properties : List (Property Value))
    (i : Nat) (p : Property Value) (q : Nat) : Prop where
  first : (commasSince i (takenCommas states)).head? = some q
  stop_eq : p.span.stop = q + 1
  stays : ∀ a ∈ states, ∀ p', a.draft.properties[i]? = some p' → p'.comma.isSome = true → p' = p
  skipped : ∀ a ∈ states, ∀ next, (propertyLoop readValue).body a = .again next →
    q < a.place.position → a.draft.properties.length = i + 1 →
    next.draft.properties.length = i + 1 → ∀ other ∈ properties,
      other.span.stop ≤ a.place.position ∨ next.place.position ≤ other.span.start

theorem PropertiesKept.spans_ordered {before s : Session σ} {start stop : Nat}
    {draft : PropertyDraft} (h : PropertiesKept before start stop draft s) :
    draft.properties.Pairwise fun p later => p.span.stop ≤ later.span.start := by
  obtain ⟨-, hacross⟩ := List.pairwise_flatMap.mp h.row.pairwise
  refine hacross.imp fun {p later} hparts => ?_
  obtain ⟨last, hlast, hstop⟩ := Option.map_eq_some_iff.mp p.stop_eq_last
  rw [← hstop]
  exact hparts last (List.mem_of_getLast? hlast) later.key.span
    (by simp [Property.partSpans, Property.frontSpans])

theorem commasOf_append (i : Nat) (commas others : List PropertyComma) :
    commasOf i (commas ++ others) = commasOf i commas ++ commasOf i others := by
  simp [commasOf]

section Course

variable {inner : Cursor} {s : Session σ} {states : List (LoopState σ PropertyDraft)}
  {b : LoopState σ PropertyDraft} {i q : Nat} {p : Property Value}

/-- A property with one comma in all has no other at any moment. -/
theorem propertyLoop_only_comma (h : (propertyLoop readValue).Goes ⟨inner, {}, s⟩ states b)
    (honly : commasOf i (takenCommas states) = [q]) {a : LoopState σ PropertyDraft}
    (ha : a ∈ states ++ [b]) {p' : Property Value} (hp' : a.draft.properties[i]? = some p')
    (hcomma : p'.comma.isSome = true) : p'.comma = some q := by
  have hpart {before after : List (LoopState σ PropertyDraft)}
      (hbefore : (propertyLoop readValue).Goes ⟨inner, {}, s⟩ before a)
      (hsplit : states = before ++ after) : p'.comma = some q := by
    have hlast := (propertyLoop_commas hbefore).comma_eq i p' hp'
    rw [hsplit, takenCommas, List.filterMap_append, commasOf_append] at honly
    rcases List.append_eq_singleton_iff.mp honly with ⟨hnone, -⟩ | ⟨hq, -⟩
    · rw [takenCommas, hnone] at hlast
      simp [hlast] at hcomma
    · rw [takenCommas, hq] at hlast
      exact hlast
  rcases List.mem_append.mp ha with ha | ha
  · obtain ⟨before, _, after, hbefore, -, -, hsplit⟩ := h.split ha
    exact hpart hbefore hsplit
  · obtain rfl := List.mem_singleton.mp ha
    exact hpart h (List.append_nil states).symm

/-- A property with one comma is finished by it. -/
theorem propertyLoop_finished {e : LoopEnd σ PropertyDraft}
    (h : (propertyLoop readValue).Course ⟨inner, {}, s⟩ states e)
    (hp : e.2.1.properties[i]? = some p) (honly : commasOf i (takenCommas states) = [q]) :
    FinishedAt states e.2.1.properties i p q := by
  obtain ⟨before, b, hgoes, hends, htaken, hmem, hagain⟩ := propertyLoop_course_ends h
  have hkept := propertyLoop_commas hgoes
  have hordered := (propertyLoop_goes_kept hgoes).spans_ordered
  have hparts := (propertyLoop_goes_kept hgoes).ordered
  rw [hends.draft_eq] at hp ⊢
  rw [htaken] at honly
  have hcomma : p.comma = some q := by
    rw [hkept.comma_eq i p hp, honly]
    rfl
  have hstop : p.span.stop = q + 1 := by simp [Property.span, Property.stop, hcomma]
  refine ⟨?_, hstop, ?_, ?_⟩
  · obtain ⟨more, hmore⟩ := hkept.first i
    rw [htaken, ← hmore, honly]
    rfl
  · intro a ha p' hp' hsome
    have hq := propertyLoop_only_comma hgoes honly (hmem a ha) hp' hsome
    obtain ⟨r, hr⟩ := propertyLoop_stays hgoes (hmem a ha) hp' hsome
    obtain rfl := Option.some.inj (hp.symm.trans hr)
    obtain rfl := Option.some.inj hcomma
    rw [← hq]
  · intro a ha next hnext hbehind hlength hlength' other hother
    obtain ⟨j, hj⟩ := List.getElem?_of_mem hother
    obtain ⟨_, _, after, -, hbody, hafter, -⟩ := hgoes.split (hagain a ha next hnext)
    obtain rfl := Pass.again.inj (hnext.symm.trans hbody)
    have hplace : p.span.stop ≤ a.place.position := hstop ▸ hbehind
    -- the properties up to this one end in front of the iteration, the others begin behind it
    rcases Nat.lt_trichotomy j i with hlt | rfl | hlt
    · have hfront : other.span.stop ≤ p.span.start := by
        obtain ⟨hj', rfl⟩ := List.getElem?_eq_some_iff.mp hj
        obtain ⟨hi', rfl⟩ := List.getElem?_eq_some_iff.mp hp
        exact List.pairwise_iff_getElem.mp hordered j i hj' hi' hlt
      have hspan := hparts p (List.mem_of_getElem? hp)
      have hle : p.span.start ≤ p.span.stop := by
        obtain ⟨hstart, hkey⟩ := hspan.inside p.key.span
          (by simp [Property.partSpans, Property.frontSpans])
        exact Nat.le_trans hstart (Nat.le_trans hspan.key_le hkey)
      exact .inl (Nat.le_trans hfront (Nat.le_trans hle hplace))
    · obtain rfl := Option.some.inj (hp.symm.trans hj)
      exact .inl hplace
    · exact .inr (propertyLoop_begun hafter hj (by omega))

end Course

theorem Session.Reopens.lt {before s : Session σ} {q r : Nat} (h : before.Reopens s q r) : q < r := by
  obtain ⟨problem, -, -, hlt, hle⟩ := h.missing
  exact Nat.lt_of_lt_of_le hlt hle

/-- A property whose last comma is the first since it began has no other. -/
theorem CommasKept.only_comma {before s : Session σ} {stop i q : Nat}
    {commas : List PropertyComma} {draft : PropertyDraft}
    (h : CommasKept before stop commas draft s) (hlast : (commasOf i commas).getLast? = some q)
    (hfirst : (commasSince i commas).head? = some q) : commasOf i commas = [q] := by
  obtain ⟨more, hmore⟩ := h.first i
  have hbetween := h.between i
  rw [← hmore] at hfirst
  generalize commasOf i commas = places at hlast hfirst hbetween
  cases places with
  | nil => simp at hlast
  | cons r rest =>
    obtain rfl := Option.some.inj hfirst
    cases rest with
    | nil => rfl
    | cons r' rest =>
      rw [List.getLast?_cons_cons] at hlast
      have hlt := ((List.pairwise_cons.mp hbetween).1 r (List.mem_of_getLast? hlast)).lt
      exact absurd hlt (Nat.lt_irrefl r)

/-- A list whose members exclude each other has its last member alone. -/
theorem eq_singleton_of_getLast? {places : List Nat} {q : Nat} (hlast : places.getLast? = some q)
    (hnone : places.Pairwise fun _ _ => False) : places = [q] := by
  match places, hlast, hnone with
  | [r], hlast, _ => exact congrArg (fun q => [q]) (Option.some.inj hlast)
  | r :: r' :: _, _, hnone => exact ((List.pairwise_cons.mp hnone).1 r' List.mem_cons_self).elim

/-- Only the policy that recovers goes on after a problem. -/
theorem ReadInDocument.onError_of_recovering {options : ReadOptions} {hooks : Hooks σ} {state : σ}
    {source : List Char} {document : Document} {v : Value} {c : Cursor} {s t : Session σ}
    {d : c.After} (h : ReadInDocument options hooks state source document v c s d t)
    (ht : t.Recovering) : options.onError = .recover := by
  have hgrows := h.within.grows.trans (readValue_grows h.reads)
  have hopened := openDocument_haltOnProblem options hooks state source
  exact ErrorPolicy.eq_recover ((hgrows.haltOnProblem_eq.trans hopened).symm.trans ht.goes_on)

/-- The comma of every property of an object in a document is the last that its object took while
the property was being built, and the other parts of the property are those that it had in front of
its first comma.  A comma finished the property exactly if it was the only one.  Between two commas of
one property there was a problem of a missing key, from which the reading recovered; so without such
a problem every property that has a comma was finished by it. -/
theorem readDocument_commas {options : ReadOptions} {hooks : Hooks σ} {state : σ}
    {source : List Char} {document : Document} {root : Value} {span : Span}
    {properties : List (Property Value)}
    (hdocument : (readDocument options hooks state source).1 = .ok document)
    (hroot : document.root = some root)
    (hreach : (Node.value root).Reaches (.value (.object span properties))) :
    ∃ c s d t states,
      ReadInDocument options hooks state source document (.object span properties) c s d t ∧
      ObjectCourse c s (.object span properties) states ∧
      (∀ i p, properties[i]? = some p →
        p.comma = (commasOf i (takenCommas states)).getLast? ∧
        (∀ a ∈ states, ∀ p', a.draft.properties[i]? = some p' → p'.comma.isSome = true →
          p = { p' with comma := p.comma }) ∧
        ∀ q, p.comma = some q →
          (FinishedAt states properties i p q ↔ commasOf i (takenCommas states) = [q])) ∧
      (∀ i, (commasOf i (takenCommas states)).Pairwise fun q r =>
        options.onError = .recover ∧ ∃ problem ∈ s.added t,
          problem.cause = .missingKey ∧ q < problem.position ∧ problem.position ≤ r) ∧
      ((options.onError = .recover → ∀ problem ∈ s.added t, problem.cause ≠ .missingKey) →
        ∀ i p q, properties[i]? = some p → p.comma = some q →
          FinishedAt states properties i p q) := by
  obtain ⟨c, s, d, t, hread⟩ := readDocument_reads hdocument hroot rfl hreach
  obtain ⟨inner, states, e, hinner, -, hcourse, hobject, -⟩ := readValue_object_course hread.reads
  obtain ⟨rfl, rfl, hgrows, -⟩ := LoopEnd.object_eq hobject
  obtain ⟨before, b, hgoes, hends, htaken, hmem, -⟩ := propertyLoop_course_ends hcourse
  have hkept := propertyLoop_commas hgoes
  rw [← htaken, ← hends.draft_eq] at hkept
  have hstays (i : Nat) (p : Property Value) (hp : e.2.1.properties[i]? = some p) :
      ∀ a ∈ states, ∀ p', a.draft.properties[i]? = some p' → p'.comma.isSome = true →
        p = { p' with comma := p.comma } := by
    intro a ha p' hp' hsome
    obtain ⟨q, hq⟩ := propertyLoop_stays hgoes (hmem a ha) hp' hsome
    rw [← hends.draft_eq] at hq
    obtain rfl := Option.some.inj (hp.symm.trans hq)
    rfl
  have hfinished (i : Nat) (p : Property Value) (q : Nat) (hp : e.2.1.properties[i]? = some p)
      (hq : p.comma = some q) : FinishedAt states e.2.1.properties i p q ↔
        commasOf i (takenCommas states) = [q] := by
    constructor
    · intro h
      exact hkept.only_comma ((hkept.comma_eq i p hp).symm.trans hq) h.first
    · exact propertyLoop_finished hcourse hp
  have hbetween (i : Nat) : (commasOf i (takenCommas states)).Pairwise fun q r =>
      options.onError = .recover ∧ ∃ problem ∈ s.added t,
        problem.cause = .missingKey ∧ q < problem.position ∧ problem.position ≤ r := by
    refine (hkept.between i).imp fun hreopens => ?_
    have hlater := hreopens.mono hkept.grows (hends.grows.trans hgrows) (Nat.le_refl _)
    exact ⟨hread.onError_of_recovering hlater.recovering, hlater.missing⟩
  refine ⟨c, s, d, t, states, hread, ⟨inner, e, hinner, hcourse, congrArg Prod.fst hobject⟩,
    fun i p hp => ⟨hkept.comma_eq i p hp, hstays i p hp, fun q hq => hfinished i p q hp hq⟩,
    hbetween, ?_⟩
  intro hnone i p q hp hq
  have hlast := (hkept.comma_eq i p hp).symm.trans hq
  refine (hfinished i p q hp hq).mpr ?_
  refine eq_singleton_of_getLast? hlast ((hbetween i).imp ?_)
  rintro q r ⟨hrecover, problem, hproblem, hcause, -⟩
  exact hnone hrecover problem hproblem hcause

/-- An object with a second comma in place of a key: the property in front of it takes that one. -/
theorem readDocument_commas_repeated :
    ∃ document span properties,
      (readDocument { onError := .recover } ({} : Hooks Unit) () "\x7ba:1,,b:2\x7d".toList).1 =
        .ok document ∧
      document.root = some (.object span properties) ∧
      properties.map (·.comma) = [some 5, none] ∧
      ∃ c s d t states, ReadInDocument { onError := .recover } ({} : Hooks Unit) ()
          "\x7ba:1,,b:2\x7d".toList document (.object span properties) c s d t ∧
        ObjectCourse c s (.object span properties) states ∧
        ∀ i p, properties[i]? = some p → p.comma = (commasOf i (takenCommas states)).getLast? := by
  have hdocument : ∃ document, (readDocument { onError := .recover } ({} : Hooks Unit) ()
      "\x7ba:1,,b:2\x7d".toList).1 = .ok document ∧
      document.root.map (fun
        | .object _ properties => properties.map (·.comma)
        | _ => []) = some [some 5, none] := ⟨_, rfl, by decide +kernel⟩
  obtain ⟨document, hdocument, hroot⟩ := hdocument
  obtain ⟨root, hroot, hplaces⟩ := Option.map_eq_some_iff.mp hroot
  cases root with
  | object span properties =>
    obtain ⟨c, s, d, t, states, hread, hcourse, hcommas, -⟩ :=
      readDocument_commas hdocument hroot (.refl _)
    exact ⟨document, span, properties, hdocument, hroot, hplaces, c, s, d, t, states, hread,
      hcourse, fun i p hp => (hcommas i p hp).1⟩
  | scalar | expression | text | array => simp at hplaces

end DataTemplate
