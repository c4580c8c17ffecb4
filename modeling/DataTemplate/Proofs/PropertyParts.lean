/-
The parts of a property.  Key, colon, value and comma stand in this order, there is no value without
a colon, and a property that lacks its colon or its value is explained by a problem that the object
reported behind its key.  The loop of an object keeps all of this up while it builds a property part
by part, through every problem and every place where it goes on after one.
Main statements: `propertyLoop_kept`, `PropertiesKept.explained` and `readDocument_properties`.
-/
import DataTemplate.Proofs.Courses
import DataTemplate.Proofs.ProblemOrder
import DataTemplate.Json.Document

namespace DataTemplate

variable {σ : Type}

/-! ### Parts -/

namespace Property

/-- Where the parts of a property in front of its comma stand. -/
def frontSpans (p : Property Value) : List Span :=
  p.key.span :: ((p.colon.map markSpan).toList ++ (p.value.map Value.span).toList)

/-- Where the parts of a property stand. -/
def partSpans (p : Property Value) : List Span := p.frontSpans ++ (p.comma.map markSpan).toList

/-- A property with a colon and a value. -/
def Complete (p : Property Value) : Prop := p.colon.isSome = true ∧ p.value.isSome = true

end Property

namespace PropertyDraft

variable {draft : PropertyDraft} {p : Property Value} {start stop position : Nat}

/-- Where the parts of all properties stand. -/
def partSpans (draft : PropertyDraft) : List Span := draft.properties.flatMap Property.partSpans

theorem partSpans_begin (draft : PropertyDraft) (key : Key) (s : Session σ) :
    (draft.begin key s).1.partSpans = draft.partSpans ++ [key.span] := by
  simp [partSpans, properties_begin, Property.partSpans, Property.frontSpans]

theorem partSpans_of_current (h : draft.current = some p) :
    draft.partSpans = draft.finished.toList.flatMap Property.partSpans ++ p.partSpans := by
  simp [partSpans, properties, h]

theorem partSpans_modify (h : draft.current = some p) (f : Property Value → Property Value) :
    (draft.modify f).partSpans = draft.finished.toList.flatMap Property.partSpans ++ (f p).partSpans := by
  simp [partSpans, properties, modify, h]

theorem partSpans_modify_none (h : draft.current = none) (f : Property Value → Property Value) :
    (draft.modify f).partSpans = draft.partSpans := by
  simp [partSpans, properties, modify, h]

/-- The parts that the property being built has and lacks while its object waits for a colon or a
value. -/
def Awaits (draft : PropertyDraft) : Prop :=
  ∀ p, draft.current = some p →
    (draft.awaited = .colon → p.colon = none ∧ p.value = none ∧ p.comma = none) ∧
    (draft.awaited = .value → p.colon.isSome = true ∧ p.value = none ∧ p.comma = none)

theorem row_colon (hawaits : draft.Awaits) (hawaited : draft.awaited = .colon)
    (h : Span.Row start stop draft.partSpans) (hle : stop ≤ position) :
    Span.Row start (position + 1) (draft.colon position).partSpans := by
  have hbehind : Span.Row start (position + 1) (draft.partSpans ++ [markSpan position]) :=
    h.concat (markSpan position) hle (Nat.le_succ position)
  cases hcurrent : draft.current with
  | none =>
    change Span.Row start _ (draft.modify _).partSpans
    rw [partSpans_modify_none hcurrent]
    exact h.mono_right (Nat.le_succ_of_le hle)
  | some p =>
    obtain ⟨hcolon, hvalue, hcomma⟩ := (hawaits p hcurrent).1 hawaited
    change Span.Row start _ (draft.modify _).partSpans
    rw [partSpans_modify hcurrent]
    rw [partSpans_of_current hcurrent] at hbehind
    simpa [Property.partSpans, Property.frontSpans, hcolon, hvalue, hcomma] using hbehind

theorem row_fill (hawaits : draft.Awaits) (hawaited : draft.awaited = .value)
    (h : Span.Row start stop draft.partSpans) {value : Value} (hle : stop ≤ value.span.start)
    (hspan : value.span.start ≤ value.span.stop) :
    Span.Row start value.span.stop (draft.fill value).partSpans := by
  have hbehind := h.concat value.span hle hspan
  cases hcurrent : draft.current with
  | none =>
    change Span.Row start _ (draft.modify _).partSpans
    rw [partSpans_modify_none hcurrent]
    exact h.mono_right (Nat.le_trans hle hspan)
  | some p =>
    obtain ⟨-, hvalue, hcomma⟩ := (hawaits p hcurrent).2 hawaited
    change Span.Row start _ (draft.modify _).partSpans
    rw [partSpans_modify hcurrent]
    rw [partSpans_of_current hcurrent] at hbehind
    simpa [Property.partSpans, Property.frontSpans, hvalue, hcomma] using hbehind

/-- A comma comes behind the other parts of its property, also where it takes the place of one. -/
theorem row_comma (h : Span.Row start stop draft.partSpans) (hle : stop ≤ position) :
    Span.Row start (position + 1) (draft.comma position).partSpans := by
  change Span.Row start _ (draft.modify _).partSpans
  cases hcurrent : draft.current with
  | none =>
    rw [partSpans_modify_none hcurrent]
    exact h.mono_right (Nat.le_succ_of_le hle)
  | some p =>
    rw [partSpans_of_current hcurrent, Property.partSpans, ← List.append_assoc] at h
    obtain ⟨middle, hmiddle, hbody⟩ := h.init
    rw [partSpans_modify hcurrent, Property.partSpans, ← List.append_assoc]
    exact hbody.concat (markSpan position) (Nat.le_trans hmiddle hle) (Nat.le_succ position)

end PropertyDraft

/-! ### Problems of one reading -/

namespace Session

variable {before s t : Session σ} {cause : Cause} {position : Nat}

/-- The problems that a later moment has and an earlier one has not. -/
def added (before s : Session σ) : List Problem := s.problems.toList.drop before.problems.size

theorem added_self (s : Session σ) : s.added s = [] := by
  simp [added]

theorem mem_added_mono (hbefore : before.Grows s) (h : s.Grows t) {q : Problem}
    (hq : q ∈ before.added s) : q ∈ before.added t := by
  obtain ⟨more, hmore⟩ := h.problems
  have hsize : before.problems.size ≤ s.problems.toList.length := hbefore.problems.length_le
  rw [added, ← hmore, List.drop_append_of_le_length hsize]
  exact List.mem_append_left more hq

theorem mem_added_of_push (hbefore : before.Grows s) {q : Problem}
    (h : t.problems = s.problems.push q) : q ∈ before.added t := by
  have hsize : before.problems.size ≤ s.problems.toList.length := hbefore.problems.length_le
  rw [added, h, Array.toList_push, List.drop_append_of_le_length hsize]
  exact List.mem_append_right _ (List.mem_singleton_self q)

/-- A problem that is committed is added. -/
theorem mem_added_commit (hbefore : before.Grows s) (hgo : s.halted = false) (cause : Cause)
    (position : Nat) : ⟨cause, position⟩ ∈ before.added (s.commit cause position) := by
  apply mem_added_of_push hbefore
  simp [commit, push, hgo]

end Session

/-- A key halts a reading only by a string that is not closed, which then ends with the key. -/
theorem readKey_halts {before s t : Session σ} {c : Cursor} {key : Key} {d : c.After}
    (h : readKey c s = (some (key, d), t)) (hbefore : before.Grows s) (hgo : s.halted = false)
    (hhalted : t.halted = true) : ⟨.unclosedString, d.1.position⟩ ∈ before.added t := by
  have hread := readKey_read c s
  rw [h] at hread
  cases hread with
  | text h =>
    rcases readText_problems h with ⟨-, hsame⟩ | ⟨-, u, hproblems, hu, ht, -⟩
    · simp [hsame, hgo] at hhalted
    · apply Session.mem_added_of_push hbefore
      rw [ht, ← hproblems]
      simp [Session.commit, Session.push, hu, hgo]
  | expression _ h => simp [(readExpression_problems h).2, hgo] at hhalted
  | identifier => simp [Session.observe, hgo] at hhalted

/-- A property has its colon and its value, or one of the problems is what became of it: a problem
of a missing colon or value or of a string that is not closed, behind its key and no later than at
`limit`. -/
def Property.Explained (problems : List Problem) (limit : Nat) (p : Property Value) : Prop :=
  p.Complete ∨ ∃ q ∈ problems, p.key.span.stop ≤ q.position ∧ q.position ≤ limit ∧
    q.cause ∈ [Cause.missingColon, .missingValue, .unclosedString]

namespace Property.Explained

variable {problems others : List Problem} {limit next : Nat} {p : Property Value}

theorem mono (h : p.Explained problems limit) (hproblems : problems ⊆ others)
    (hle : limit ≤ next) : p.Explained others next := by
  rcases h with hcomplete | ⟨q, hq, hbehind, hlimit, hcause⟩
  · exact .inl hcomplete
  · exact .inr ⟨q, hproblems hq, hbehind, Nat.le_trans hlimit hle, hcause⟩

theorem colon (h : p.Explained problems limit) (position : Nat) :
    { p with colon := some position }.Explained problems limit :=
  h.imp_left fun hcomplete => ⟨rfl, hcomplete.2⟩

theorem comma (h : p.Explained problems limit) (position : Nat) :
    { p with comma := some position }.Explained problems limit := h

end Property.Explained

/-! ### What an object keeps up -/

/-- An object that goes on and has yet to come to the colon or the value of a property. -/
def PropertyDraft.Waits (draft : PropertyDraft) (s : Session σ) : Prop :=
  s.halted = false ∧ (draft.awaited = .colon ∨ draft.awaited = .value)

/-- What an object has made of the text between two places, since the moment `before`.  Each
property is explained in front of the next one; the last one may still wait for its parts. -/
structure PropertiesKept (before : Session σ) (start stop : Nat) (draft : PropertyDraft)
    (s : Session σ) : Prop where
  grows : before.Grows s
  row : Span.Row start stop draft.partSpans
  awaits : draft.Awaits
  colons : ∀ p ∈ draft.properties, p.value.isSome = true → p.colon.isSome = true
  between : draft.properties.Pairwise fun p later =>
    p.Explained (before.added s) later.key.span.start
  finished : ∀ p ∈ draft.finished.toList, p.Explained (before.added s) stop
  current : ∀ p, draft.current = some p → draft.Waits s ∨ p.Explained (before.added s) stop

namespace PropertiesKept

variable {before s t : Session σ} {start stop next position : Nat} {draft : PropertyDraft}

theorem start_of_reading (s : Session σ) (h : start ≤ stop) :
    PropertiesKept s start stop {} s where
  grows := .refl s
  row := h
  awaits := by simp [PropertyDraft.Awaits]
  colons := by simp [PropertyDraft.properties]
  between := .nil
  finished := by simp
  current := by simp

theorem mono (h : PropertiesKept before start stop draft s) (hle : stop ≤ next) :
    PropertiesKept before start next draft s :=
  { h with
    row := h.row.mono_right hle
    finished := fun p hp => (h.finished p hp).mono (List.Subset.refl _) hle
    current := fun p hp => (h.current p hp).imp_right fun hexplained =>
      hexplained.mono (List.Subset.refl _) hle }

/-- Later problems do not undo what the earlier ones explain. -/
theorem grow (h : PropertiesKept before start stop draft s) (hgrows : s.Grows t)
    (hsteady : t.halted = s.halted) : PropertiesKept before start stop draft t :=
  have hadded : before.added s ⊆ before.added t :=
    fun _ hq => Session.mem_added_mono h.grows hgrows hq
  { h with
    grows := h.grows.trans hgrows
    between := h.between.imp fun hexplained => hexplained.mono hadded (Nat.le_refl _)
    finished := fun p hp => (h.finished p hp).mono hadded (Nat.le_refl _)
    current := fun p hp => (h.current p hp).imp
      (fun hwaits => ⟨hsteady.trans hwaits.1, hwaits.2⟩)
      fun hexplained => hexplained.mono hadded (Nat.le_refl _) }

/-- While nothing is waited for, all properties are explained. -/
theorem explained (h : PropertiesKept before start stop draft s) (hwaits : ¬ draft.Waits s) :
    ∀ p ∈ draft.properties, p.Explained (before.added s) stop := by
  intro p hp
  rw [PropertyDraft.properties, List.mem_append, Option.mem_toList] at hp
  rcases hp with hp | hp
  · exact h.finished p hp
  · exact (h.current p hp).resolve_left hwaits

/-- The key of the property being built ends in front of the place reached. -/
theorem key_stop_le (h : PropertiesKept before start stop draft s) {p : Property Value}
    (hp : draft.current = some p) : p.key.span.stop ≤ stop := by
  have hmem : p.key.span ∈ draft.partSpans := by
    rw [PropertyDraft.partSpans_of_current hp]
    simp [Property.partSpans, Property.frontSpans]
  exact (h.row.bounds hmem).2

/-- The problem of what does not come explains the property that waits for it. -/
theorem commit (h : PropertiesKept before start stop draft s) (hgo : s.halted = false)
    (hle : stop ≤ position) :
    ∀ p ∈ draft.properties,
      p.Explained (before.added (s.commit draft.awaited.missing position)) position := by
  intro p hp
  have hadded : before.added s ⊆ before.added (s.commit draft.awaited.missing position) :=
    fun _ hq => Session.mem_added_mono h.grows (.commit s _ _) hq
  rw [PropertyDraft.properties, List.mem_append, Option.mem_toList] at hp
  rcases hp with hp | hp
  · exact (h.finished p hp).mono hadded hle
  · rcases h.current p hp with hwaits | hexplained
    · have hmem := Session.mem_added_commit h.grows hgo draft.awaited.missing position
      have hcause : draft.awaited.missing ∈
          [Cause.missingColon, .missingValue, .unclosedString] := by
        rcases hwaits.2 with hawaited | hawaited <;> simp [hawaited, Awaited.missing]
      exact .inr ⟨_, hmem, Nat.le_trans (h.key_stop_le hp) hle, Nat.le_refl _, hcause⟩
    · exact hexplained.mono hadded hle

/-- An object whose properties are all explained may wait for anything that the property being built
has no part in. -/
theorem settle {draft' : PropertyDraft} (h : PropertiesKept before start stop draft s)
    (hgrows : s.Grows t) (hle : stop ≤ next)
    (hexplained : ∀ p ∈ draft.properties, p.Explained (before.added t) next)
    (hproperties : draft'.properties = draft.properties) (hawaits : draft'.Awaits) :
    PropertiesKept before start next draft' t where
  grows := h.grows.trans hgrows
  row := by
    rw [PropertyDraft.partSpans, hproperties]
    exact h.row.mono_right hle
  awaits := hawaits
  colons := hproperties ▸ h.colons
  between := hproperties ▸ h.between.imp fun hexplained => hexplained.mono
    (fun _ hq => Session.mem_added_mono h.grows hgrows hq) (Nat.le_refl _)
  finished p hp := hexplained p (hproperties ▸ List.mem_append_left _ hp)
  current p hp := .inr (hexplained p (hproperties ▸ List.mem_append_right _ (by simp [hp])))

/-- A change of the property being built leaves what explains the properties in front of it. -/
theorem between_modify (h : PropertiesKept before start stop draft s)
    {f : Property Value → Property Value} (hkey : ∀ p, (f p).key = p.key) :
    (draft.modify f).properties.Pairwise fun p later =>
      p.Explained (before.added s) later.key.span.start := by
  obtain ⟨hfinished, -, hcross⟩ := List.pairwise_append.mp h.between
  cases hcurrent : draft.current with
  | none => simpa [PropertyDraft.properties, PropertyDraft.modify, hcurrent] using hfinished
  | some p =>
    rw [hcurrent] at hcross
    simp only [PropertyDraft.properties, PropertyDraft.modify, hcurrent, Option.map_some,
      Option.toList_some]
    refine List.pairwise_append.mpr ⟨hfinished, List.pairwise_singleton _ _, ?_⟩
    intro q hq later hlater
    obtain rfl := List.mem_singleton.mp hlater
    rw [hkey]
    exact hcross q hq p (by simp)

/-- A key begins the next property, once all others are explained. -/
theorem begin (h : PropertiesKept before start stop draft s) (hgrows : s.Grows t) {key : Key}
    (hexplained : ∀ p ∈ draft.properties, p.Explained (before.added s) stop)
    (hle : stop ≤ key.span.start) (hspan : key.span.start ≤ key.span.stop)
    (hhalts : t.halted = true → ⟨.unclosedString, key.span.stop⟩ ∈ before.added t) :
    PropertiesKept before start key.span.stop (draft.begin key t).1 (draft.begin key t).2 := by
  have hflush : (draft.begin key t).2.problems = t.problems ∧
      (draft.begin key t).2.halted = t.halted := by
    unfold PropertyDraft.begin PropertyDraft.flush
    dsimp only
    split <;> exact ⟨rfl, rfl⟩
  have hadded : before.added (draft.begin key t).2 = before.added t := by
    rw [Session.added, Session.added, hflush.1]
  have hkept (p : Property Value) (hp : p ∈ draft.properties) :
      p.Explained (before.added t) key.span.start :=
    (hexplained p hp).mono (fun _ hq => Session.mem_added_mono h.grows hgrows hq) hle
  have hfinished : (draft.begin key t).1.finished.toList = draft.properties :=
    draft.finished_flush t
  refine ⟨?_, ?_, ?_, ?_, ?_, ?_, ?_⟩
  · exact h.grows.trans (hgrows.trans (Session.Grows.law.begin (.ofText []) draft key t))
  · rw [PropertyDraft.partSpans_begin]
    exact h.row.concat key.span hle hspan
  · intro p hp
    obtain rfl := Option.some.inj hp
    exact ⟨fun _ => ⟨rfl, rfl, rfl⟩, fun hvalue => absurd hvalue (by simp [PropertyDraft.begin])⟩
  · rw [PropertyDraft.properties_begin]
    exact List.forall_mem_append.mpr ⟨h.colons, List.forall_mem_singleton.mpr (by simp)⟩
  · rw [PropertyDraft.properties_begin, hadded]
    refine List.pairwise_append.mpr ⟨?_, List.pairwise_singleton _ _, ?_⟩
    · exact h.between.imp fun hexplained => hexplained.mono
        (fun _ hq => Session.mem_added_mono h.grows hgrows hq) (Nat.le_refl _)
    · intro p hp later hlater
      obtain rfl := List.mem_singleton.mp hlater
      exact hkept p hp
  · rw [hfinished, hadded]
    exact fun p hp => (hkept p hp).mono (List.Subset.refl _) hspan
  · intro p hp
    obtain rfl := Option.some.inj hp
    rw [PropertyDraft.Waits, hflush.2, hadded]
    cases hhalted : t.halted with
    | false => exact .inl ⟨rfl, .inl rfl⟩
    | true =>
      -- a key that halts the reading is a string without its end, which explains the property
      exact .inr (.inr ⟨_, hhalts hhalted, Nat.le_refl _, Nat.le_refl _, by simp⟩)

theorem colon (h : PropertiesKept before start stop draft s) (hawaited : draft.awaited = .colon)
    (hle : stop ≤ position) :
    PropertiesKept before start (position + 1) (draft.colon position) s where
  grows := h.grows
  row := PropertyDraft.row_colon h.awaits hawaited h.row hle
  awaits := by
    intro p hp
    obtain ⟨q, hq, rfl⟩ := Option.map_eq_some_iff.mp hp
    obtain ⟨-, hvalue, hcomma⟩ := (h.awaits q hq).1 hawaited
    exact ⟨by simp [PropertyDraft.colon], fun _ => ⟨rfl, hvalue, hcomma⟩⟩
  colons := PropertyDraft.forall_modify h.colons fun _ _ _ _ => rfl
  between := h.between_modify fun _ => rfl
  finished p hp := (h.finished p hp).mono (List.Subset.refl _) (Nat.le_succ_of_le hle)
  current := by
    intro p hp
    obtain ⟨q, hq, rfl⟩ := Option.map_eq_some_iff.mp hp
    rcases h.current q hq with hwaits | hexplained
    · exact .inl ⟨hwaits.1, .inr rfl⟩
    · exact .inr ((hexplained.colon position).mono (List.Subset.refl _) (Nat.le_succ_of_le hle))

/-- A value completes its property. -/
theorem fill (h : PropertiesKept before start stop draft s) (hawaited : draft.awaited = .value)
    (hgrows : s.Grows t) {value : Value} (hle : stop ≤ value.span.start)
    (hspan : value.span.start ≤ value.span.stop) :
    PropertiesKept before start value.span.stop (draft.fill value) t where
  grows := h.grows.trans hgrows
  row := PropertyDraft.row_fill h.awaits hawaited h.row hle hspan
  awaits := by
    intro p hp
    exact ⟨by simp [PropertyDraft.fill], by simp [PropertyDraft.fill]⟩
  colons := PropertyDraft.forall_modify h.colons fun p hp _ _ =>
    ((h.awaits p hp).2 hawaited).1
  between :=
    (h.between_modify (f := fun p => { p with value := some value }) fun _ => rfl).imp
      fun hexplained => hexplained.mono
        (fun _ hq => Session.mem_added_mono h.grows hgrows hq) (Nat.le_refl _)
  finished p hp := (h.finished p hp).mono
    (fun _ hq => Session.mem_added_mono h.grows hgrows hq) (Nat.le_trans hle hspan)
  current := by
    intro p hp
    obtain ⟨q, hq, rfl⟩ := Option.map_eq_some_iff.mp hp
    exact .inr (.inl ⟨((h.awaits q hq).2 hawaited).1, rfl⟩)

theorem comma (h : PropertiesKept before start stop draft s)
    (hawaited : draft.awaited = .commaOrEnd) (hle : stop ≤ position) :
    PropertiesKept before start (position + 1) (draft.comma position) s where
  grows := h.grows
  row := PropertyDraft.row_comma h.row hle
  awaits := by
    intro p hp
    exact ⟨by simp [PropertyDraft.comma], by simp [PropertyDraft.comma]⟩
  colons := PropertyDraft.forall_modify h.colons fun _ _ hp => hp
  between := h.between_modify fun _ => rfl
  finished p hp := (h.finished p hp).mono (List.Subset.refl _) (Nat.le_succ_of_le hle)
  current := by
    intro p hp
    obtain ⟨q, hq, rfl⟩ := Option.map_eq_some_iff.mp hp
    have hexplained := (h.current q hq).resolve_left fun hwaits => by
      simp [PropertyDraft.Waits, hawaited] at hwaits
    exact .inr ((hexplained.comma position).mono (List.Subset.refl _) (Nat.le_succ_of_le hle))

/-- At the end all properties are explained: what is still waited for is missing. -/
theorem unclosed (h : PropertiesKept before start stop draft s) {closed : Bool}
    (hwaits : draft.Waits s → closed = false) :
    ∀ p ∈ draft.properties,
      p.Explained (before.added (s.commitUnclosed closed draft.awaited.missing stop)) stop := by
  unfold Session.commitUnclosed
  split
  · rename_i hends
    refine h.explained fun hwaiting => ?_
    simp [hwaiting.1, hwaits hwaiting] at hends
  · rename_i hgoes
    have hgo : s.halted = false := by simp_all
    exact h.commit hgo (Nat.le_refl _)

end PropertiesKept

/-! ### The loop -/

/-- What holds of an object in a state of its loop. -/
def LoopState.KeptSince (before : Session σ) (start : Nat) (a : LoopState σ PropertyDraft) : Prop :=
  PropertiesKept before start a.place.position a.draft a.session

section Loop

variable {before s : Session σ} {start : Nat} {a next : LoopState σ PropertyDraft}

/-- After a problem at `c` all properties are explained, and the object goes on behind it. -/
theorem ResyncRead.kept {c : Cursor} {draft : PropertyDraft}
    (h : PropertiesKept before start c.position draft s) (hgo : s.halted = false)
    (hgoes : (s.commit draft.awaited.missing c.position).halted = false)
    (hnext : ResyncRead c draft (s.commit draft.awaited.missing c.position) next) :
    next.KeptSince before start := by
  have hexplained := h.commit hgo (Nat.le_refl _)
  have hcommit := Session.Grows.commit s draft.awaited.missing c.position
  have hgrows := hcommit.trans hnext.grows
  have hlater {place : Nat} (hle : c.position ≤ place) (p : Property Value)
      (hp : p ∈ draft.properties) : p.Explained (before.added next.session) place :=
    (hexplained p hp).mono
      (fun _ hq => Session.mem_added_mono (h.grows.trans hcommit) hnext.grows hq) hle
  -- whatever the object goes on with, its properties were explained by the problem already
  cases hnext with
  | lost =>
    have hle := Cursor.position_le_of_le c.le_toEnd
    exact h.settle hgrows hle (hlater hle) rfl h.awaits
  | @mark landing =>
    have hle := Cursor.position_le_of_le landing.reach
    exact h.settle hgrows hle (hlater hle) rfl fun p _ => ⟨by simp, by simp⟩
  | @key landing key d t hland hdelimiter hkey hd =>
    have hspan := readKey_span hkey
    have hstop : d.1.position = key.span.stop := by rw [hspan]
    have hkept : PropertiesKept before start c.position draft
        (s.commit draft.awaited.missing c.position) :=
      h.settle hcommit (Nat.le_refl _) hexplained rfl h.awaits
    have hbegin := hkept.begin (Session.Grows.law.key hkey) hexplained (by simp [hspan])
      (by simp [hspan, Cursor.position_le_of_le (Cursor.le_of_lt d.2)])
      fun hhalted => hstop ▸ readKey_halts hkey hkept.grows hgoes hhalted
    exact hbegin.mono (hstop ▸ hd)
  | @detach landing tried hland hdelimiter htried =>
    have hle := Cursor.position_le_of_le landing.reach
    refine h.settle hgrows hle (hlater hle) (draft.properties_flush _) ?_
    intro p hp
    simp [PropertyDraft.current_flush] at hp

/-- Every iteration of an object keeps up what holds of it. -/
theorem propertyLoop_kept (h : a.KeptSince before start) (hgo : a.session.halted = false)
    (hbody : (propertyLoop readValue).body a = .again next) : next.KeptSince before start := by
  have hplace := h.mono (Cursor.position_le_of_le a.place.le_skipBlanks)
  cases propertyLoop_next hbody with
  | @comment d =>
    exact (hplace.mono (Cursor.position_le_of_le (Cursor.le_of_lt d.2))).grow (.observe _ _) rfl
  | @key key d t hawaited hkey =>
    have hspan := readKey_span hkey
    have hstop : d.1.position = key.span.stop := by rw [hspan]
    have hexplained := hplace.explained fun hwaits => by
      simp [PropertyDraft.Waits, hawaited] at hwaits
    have hbegin := hplace.begin (Session.Grows.law.key hkey) hexplained (by simp [hspan])
      (by simp [hspan, Cursor.position_le_of_le (Cursor.le_of_lt d.2)])
      fun hhalted => hstop ▸ readKey_halts hkey hplace.grows hgo hhalted
    rwa [← hstop] at hbegin
  | colon hawaited hd =>
    have hcolon := hplace.colon hawaited (Nat.le_refl _)
    rwa [← hd.position_succ (by decide)] at hcolon
  | @value value d t hawaited hvalue =>
    obtain ⟨hspan, -⟩ := readValue_placed hvalue
    have hstop : d.1.position = value.span.stop := by rw [hspan]
    have hfill : PropertiesKept before start value.span.stop (a.draft.fill value) t :=
      hplace.fill hawaited (readValue_grows hvalue) (by simp [hspan])
        (by simp [hspan, Cursor.position_le_of_le (Cursor.le_of_lt d.2)])
    rwa [← hstop] at hfill
  | comma hawaited hd =>
    have hcomma := hplace.comma hawaited (Nat.le_refl _)
    rwa [← hd.position_succ (by decide)] at hcomma
  | resync hgoes hresync => exact hresync.kept hplace hgo hgoes

theorem propertyLoop_goes_kept {inner : Cursor} {states : List (LoopState σ PropertyDraft)}
    {b : LoopState σ PropertyDraft} (h : (propertyLoop readValue).Goes ⟨inner, {}, s⟩ states b) :
    b.KeptSince s inner.position :=
  h.invariant (fun _ _ hkept hexit hbody =>
    propertyLoop_kept hkept (LoopState.halt?_eq_none.mp hexit) hbody)
    (.start_of_reading s (Nat.le_refl _))

/-- What holds of an object at the end of its loop. -/
theorem propertyLoop_course_kept {inner : Cursor} {states : List (LoopState σ PropertyDraft)}
    {e : LoopEnd σ PropertyDraft}
    (h : (propertyLoop readValue).Course ⟨inner, {}, s⟩ states e) :
    PropertiesKept s inner.position e.1.position e.2.1 e.2.2.2 ∧
      (e.2.1.Waits e.2.2.2 → e.2.2.1 = false) := by
  obtain ⟨before, b, hgoes, hend⟩ := h.last
  have hkept := propertyLoop_goes_kept hgoes
  rcases hend with hexit | ⟨hgo, hbody⟩
  · change b.halt? = _ at hexit
    unfold LoopState.halt? at hexit
    split at hexit
    · obtain rfl := Option.some.inj hexit
      exact ⟨hkept, fun _ => rfl⟩
    · simp at hexit
  · have hplace := hkept.mono (Cursor.position_le_of_le b.place.le_skipBlanks)
    cases propertyLoop_last hbody with
    | ended => exact ⟨hplace, fun _ => rfl⟩
    | closed hd hawaited =>
      refine ⟨hplace.mono (Cursor.position_le_of_le hd.le), fun hwaits => ?_⟩
      rcases hawaited with hawaited | hawaited <;>
        simp [PropertyDraft.Waits, hawaited] at hwaits
    | halt =>
      have hexplained := hplace.commit (LoopState.halt?_eq_none.mp hgo) (Nat.le_refl _)
      exact ⟨hplace.settle (.commit _ _ _) (Nat.le_refl _) hexplained rfl hplace.awaits,
        fun _ => rfl⟩

end Loop

/-! ### Objects -/

/-- The parts of a property that are there follow each other: the key, the colon, the value and the
comma.  The property starts with its key and ends with the last of them. -/
structure Property.Ordered (p : Property Value) : Prop where
  value_colon : p.value.isSome = true → p.colon.isSome = true
  key_le : p.key.span.start ≤ p.key.span.stop
  key_le_colon : ∀ q, p.colon = some q → p.key.span.stop ≤ q
  colon_lt_value : ∀ q v, p.colon = some q → p.value = some v → q < v.span.start
  value_le : ∀ v, p.value = some v → v.span.start ≤ v.span.stop
  key_le_comma : ∀ q, p.comma = some q → p.key.span.stop ≤ q
  colon_lt_comma : ∀ r q, p.colon = some r → p.comma = some q → r < q
  value_le_comma : ∀ v q, p.value = some v → p.comma = some q → v.span.stop ≤ q
  start_eq : p.span.start = p.key.span.start
  stop_eq : p.partSpans.getLast?.map Span.stop = some p.span.stop
  inside : ∀ part ∈ p.partSpans, p.span.start ≤ part.start ∧ part.stop ≤ p.span.stop

theorem Property.stop_eq_last (p : Property Value) :
    p.partSpans.getLast?.map Span.stop = some p.span.stop := by
  obtain ⟨key, colon, value, comma⟩ := p
  cases comma <;> cases value <;> cases colon <;>
    simp [partSpans, frontSpans, Property.span, Property.stop, markSpan, List.getLast?_cons]

theorem Span.Row.stop_le_last {start stop : Nat} {spans : List Span} {last : Span}
    (h : Span.Row start stop spans) (hlast : spans.getLast? = some last) :
    ∀ span ∈ spans, span.stop ≤ last.stop := by
  obtain ⟨front, rfl⟩ := List.getLast?_eq_some_iff.mp hlast
  obtain ⟨middle, hfront, hstart, hspan, -⟩ := Span.Row.append_iff.mp h
  intro span hmem
  rcases List.mem_append.mp hmem with hmem | hmem
  · exact Nat.le_trans (hfront.bounds hmem).2 (Nat.le_trans hstart hspan)
  · exact Nat.le_of_eq (congrArg Span.stop (List.mem_singleton.mp hmem))

theorem Property.Ordered.of_row {p : Property Value} {start stop : Nat}
    (hvalue : p.value.isSome = true → p.colon.isSome = true)
    (h : Span.Row start stop p.partSpans) : p.Ordered := by
  have hmark {position : Option Nat} {q : Nat} (hq : position = some q) :
      markSpan q ∈ (position.map markSpan).toList := by simp [hq]
  have hspan {v : Value} (hv : p.value = some v) : v.span ∈ (p.value.map Value.span).toList := by
    simp [hv]
  have hpairs := h.pairwise
  rw [partSpans, frontSpans, List.cons_append, List.pairwise_cons, List.pairwise_append,
    List.pairwise_append] at hpairs
  obtain ⟨hkey, ⟨-, -, hcolon⟩, -, hcomma⟩ := hpairs
  refine ⟨hvalue, h.2.1, ?_, ?_, ?_, ?_, ?_, ?_, rfl, p.stop_eq_last, ?_⟩
  · intro q hq
    exact hkey _ (List.mem_append_left _ (List.mem_append_left _ (hmark hq)))
  · intro q v hq hv
    exact hcolon _ (hmark hq) _ (hspan hv)
  · intro v hv
    refine h.le_of_mem v.span (List.mem_append_left _ (List.mem_cons_of_mem _ ?_))
    exact List.mem_append_right _ (hspan hv)
  · intro q hq
    exact hkey _ (List.mem_append_right _ (hmark hq))
  · intro r q hr hq
    exact hcomma _ (List.mem_append_left _ (hmark hr)) _ (hmark hq)
  · intro v q hv hq
    exact hcomma _ (List.mem_append_right _ (hspan hv)) _ (hmark hq)
  · obtain ⟨last, hlast, hstop⟩ := Option.map_eq_some_iff.mp p.stop_eq_last
    have hrow : Span.Row p.key.span.start stop p.partSpans := ⟨Nat.le_refl _, h.2⟩
    intro part hpart
    exact ⟨(hrow.bounds hpart).1, hstop ▸ h.stop_le_last hlast part hpart⟩

theorem PropertiesKept.ordered {before s : Session σ} {start stop : Nat} {draft : PropertyDraft}
    (h : PropertiesKept before start stop draft s) : ∀ p ∈ draft.properties, p.Ordered := by
  intro p hp
  obtain ⟨front, back, hsplit⟩ := List.append_of_mem hp
  have hrow := h.row
  rw [PropertyDraft.partSpans, hsplit, List.flatMap_append, List.flatMap_cons] at hrow
  obtain ⟨middle, -, hback⟩ := Span.Row.append_iff.mp hrow
  obtain ⟨_, hparts, -⟩ := Span.Row.append_iff.mp hback
  exact .of_row (h.colons p hp) hparts

/-- The list that an object is written with: an entry for each property, which says what parts it
has and where they stand. -/
structure ObjectForm (style : NumberStyle) (span : Span) (properties : List (Property Value))
    (entries : List Json) : Prop where
  written : (Value.object span properties).toJson style = .object (typeMember .object ::
    (span.members ++ [("properties", .array entries)]))
  length_eq : entries.length = properties.length
  entry : ∀ (i : Nat) (p : Property Value), properties[i]? = some p → entries[i]? = some (.object [
    ("start", .ofNat p.span.start), ("end", .ofNat p.span.stop),
    ("consumedLength", .ofNat p.span.length), ("key", p.key.toJson),
    ("value", .ofOption (Value.toJson style) p.value),
    ("hasColon", .boolean p.colon.isSome), ("colonStart", .ofOption .ofNat p.colon),
    ("hasTrailingComma", .boolean p.comma.isSome),
    ("trailingCommaStart", .ofOption .ofNat p.comma)])

theorem Explicit.propertiesToJson_eq (style : NumberStyle)
    (properties : List (Explicit.Property Explicit.Value)) :
    Explicit.propertiesToJson style properties = properties.map fun p =>
      .object (p.membersWith (.ofOption (Explicit.Value.toJson style) p.value)) := by
  induction properties with
  | nil => rfl
  | cons p properties ih =>
    obtain ⟨span, key, value, hasColon, colonStart, hasTrailingComma, trailingCommaStart⟩ := p
    cases value <;> simp [Explicit.propertiesToJson, ih, Json.ofOption]

theorem Value.object_form (style : NumberStyle) (span : Span)
    (properties : List (Property Value)) : ∃ entries, ObjectForm style span properties entries := by
  refine ⟨Explicit.propertiesToJson style (properties.map Property.explicit), ⟨?_, ?_, ?_⟩⟩
  · rw [toJson, Value.explicit_object, Explicit.Value.toJson]
  · simp [Explicit.propertiesToJson_eq]
  · intro i p hp
    have hvalue : Json.ofOption (Explicit.Value.toJson style) p.explicit.value =
        .ofOption (Value.toJson style) p.value := by
      cases hv : p.value <;> simp [Property.explicit, Property.explicitWith, hv] <;> rfl
    simp only [Explicit.propertiesToJson_eq, List.getElem?_map, hp, Option.map_some,
      Explicit.Property.membersWith, hvalue]
    rfl

/-- Every property of every object in a document has its parts in order, and is written with them.
One that lacks its colon or its value is explained by a problem which the reading of its object
added, behind its key and not behind the next key or the end of the object; so without such a
problem all properties have both. -/
theorem readDocument_properties {options : ReadOptions} {hooks : Hooks σ} {state : σ}
    {source : List Char} {document : Document} {root : Value} {span : Span}
    {properties : List (Property Value)}
    (hdocument : (readDocument options hooks state source).1 = .ok document)
    (hroot : document.root = some root)
    (hreach : (Node.value root).Reaches (.value (.object span properties))) :
    (∀ p ∈ properties, p.Ordered) ∧
    (∀ style, ∃ entries, ObjectForm style span properties entries) ∧
    ∃ c s d t, ReadInDocument options hooks state source document (.object span properties) c s d t ∧
      (properties.Pairwise fun p later => p.Explained (s.added t) later.key.span.start) ∧
      (∀ p ∈ properties, p.Explained (s.added t) span.stop) ∧
      (t.problems = s.problems → ∀ p ∈ properties, p.Complete) := by
  obtain ⟨c, s, d, t, hread⟩ := readDocument_reads hdocument hroot rfl hreach
  obtain ⟨inner, states, e, hinner, hbrace, hcourse, hobject, -⟩ :=
    readValue_object_course hread.reads
  obtain ⟨hkept, hwaits⟩ := propertyLoop_course_kept hcourse
  obtain ⟨rfl, rfl, hgrows, hproblems⟩ := LoopEnd.object_eq hobject
  have hexplained : ∀ p ∈ e.2.1.properties, p.Explained (s.added t) e.1.position := by
    rw [Session.added, hproblems]
    exact hkept.unclosed hwaits
  refine ⟨hkept.ordered, fun style => Value.object_form style _ _, c, s, d, t, hread, ?_,
    hexplained, ?_⟩
  · exact hkept.between.imp fun hbetween => hbetween.mono
      (fun _ hq => Session.mem_added_mono hkept.grows hgrows hq) (Nat.le_refl _)
  · intro hsame p hp
    have hnone : s.added t = [] := by rw [Session.added, hsame, ← Session.added, s.added_self]
    rcases hexplained p hp with hcomplete | ⟨q, hq, -⟩
    · exact hcomplete
    · simp [hnone] at hq

/-- An object with a key alone, a key with a colon, a whole property, and a key that is a string
without its closing quote. -/
theorem readDocument_properties_broken :
    ∃ document span properties,
      (readDocument { onError := .recover } ({} : Hooks Unit) ()
        "\x7ba, b:, c:1, \"d".toList).1 = .ok document ∧
      document.root = some (.object span properties) ∧
      properties.map (fun p => (p.colon, p.value.isSome)) =
        [(none, false), (some 5, false), (some 9, true), (none, false)] ∧
      (∀ p ∈ properties, p.Ordered) ∧
      ∃ c s d t, ReadInDocument { onError := .recover } ({} : Hooks Unit) ()
          "\x7ba, b:, c:1, \"d".toList document (.object span properties) c s d t ∧
        ∀ p ∈ properties, p.Explained (s.added t) span.stop := by
  have hdocument : ∃ document, (readDocument { onError := .recover } ({} : Hooks Unit) ()
      "\x7ba, b:, c:1, \"d".toList).1 = .ok document ∧
      document.root.map (fun
        | .object _ properties => properties.map fun p => (p.colon, p.value.isSome)
        | _ => []) = some [(none, false), (some 5, false), (some 9, true), (none, false)] :=
    ⟨_, rfl, by decide +kernel⟩
  obtain ⟨document, hdocument, hroot⟩ := hdocument
  obtain ⟨root, hroot, hparts⟩ := Option.map_eq_some_iff.mp hroot
  cases root with
  | object span properties =>
    obtain ⟨hordered, -, c, s, d, t, hread, -, hexplained, -⟩ :=
      readDocument_properties hdocument hroot (.refl _)
    exact ⟨document, span, properties, hdocument, hroot, hparts, hordered, c, s, d, t, hread,
      hexplained⟩
  | scalar | expression | text | array => simp at hparts

end DataTemplate
