/-
Objects with a comma left out.  The reader reports the key behind the gap and walks on from there to
the next delimiter; where that is the colon behind the key, the key begins the next property, and
nothing is lost.  Main statements: `PropertyText.leads_late`, `GappedObject.colonFirst_of_passable`,
`parse_gap_recovered` and, where the walk ends inside the key, `gap_costs_other`.
-/
import DataTemplate.Proofs.PropertyRecovery

namespace DataTemplate

variable {σ : Type} {n : Nat}

/-! ### Texts with a comma left out -/

/-- The key and the value of a property without positions. -/
def Property.bare (p : Property Value) : Key × Option Value := (p.key.erase, p.value.map Value.erase)

namespace PropertyText

/-- The key and the value that a property is made of, without positions. -/
def bare (p : PropertyText) : Key × Option Value := (p.property 0 none).bare

/-- Whether a property has a value, no garbage. -/
def Whole (p : PropertyText) : Prop := ∃ v, p.content = .value v

theorem bare_property (p : PropertyText) (position : Nat) (comma : Option Nat) :
    (p.property position comma).bare = p.bare := by
  cases hcontent : p.content <;>
    simp [bare, Property.bare, property, opened, hcontent, Entry.value?, Key.erase_shift,
      Value.erase_shift]

theorem Whole.problems_eq {p : PropertyText} (h : p.Whole) (position : Nat) :
    p.problems position = [] := by
  obtain ⟨v, hcontent⟩ := h
  rw [problems, hcontent]
  rfl

end PropertyText

theorem bare_propertiesAt (final : Option Blanks) (position : Nat) (p : PropertyText)
    (more : List PropertyText) :
    (propertiesAt final position p more).map Property.bare = (p :: more).map PropertyText.bare := by
  induction more generalizing position p with
  | nil => simp [propertiesAt, PropertyText.bare_property]
  | cons q more ih => simp [propertiesAt, PropertyText.bare_property, ih]

theorem propertyProblemsAt_of_whole {position : Nat} {p : PropertyText} {more : List PropertyText}
    (h : ∀ q ∈ p :: more, q.Whole) : propertyProblemsAt position p more = [] := by
  induction more generalizing position p with
  | nil => exact (h p List.mem_cons_self).problems_eq position
  | cons q more ih =>
    obtain ⟨hp, hmore⟩ := List.forall_mem_cons.mp h
    rw [propertyProblemsAt, hp.problems_eq, ih hmore, List.append_nil]

/-- The spelling of properties with a comma behind each. -/
def leadingText : List PropertyText → List Char
  | [] => []
  | p :: more => p.text ++ ',' :: leadingText more

/-- Properties with a comma behind each, and the last ones behind them, are the properties of one
object. -/
theorem exists_first (before : List PropertyText) (p : PropertyText) (more : List PropertyText)
    (final : Option Blanks) : ∃ first others, before ++ p :: more = first :: others ∧
      leadingText before ++ (p.text ++ moreText final more) =
        first.text ++ moreText final others := by
  induction before with
  | nil => exact ⟨p, more, rfl, rfl⟩
  | cons q before ih =>
    obtain ⟨first, others, hsame, htext⟩ := ih
    refine ⟨q, first :: others, by rw [List.cons_append, hsame], ?_⟩
    rw [leadingText, List.append_assoc, List.cons_append, htext, moreText]

/-- An object of whole properties, with one comma to be left out: the one between `prior` and
`next`. -/
structure GappedObject where
  opening : { x : Char // isBlank x = true }
  before : List PropertyText
  prior : PropertyText
  gap : { x : Char // isBlank x = true }
  next : PropertyText
  more : List PropertyText
  final : Option Blanks
  whole : ∀ p ∈ before ++ prior :: next :: more, p.Whole

namespace GappedObject

/-- All properties of the object. -/
def properties (object : GappedObject) : List PropertyText :=
  object.before ++ object.prior :: object.next :: object.more

/-- The spelling of the object behind its first white space, with `separator` at the place of the
comma. -/
def body (separator : Char) (object : GappedObject) : List Char :=
  leadingText object.before ++
    (object.prior.text ++ separator :: (object.next.text ++ moreText object.final object.more))

/-- The spelling of the object with `separator` at the place of the comma. -/
def text (separator : Char) (object : GappedObject) : List Char :=
  '{' :: object.opening :: object.body separator

/-- Where the key behind the gap starts. -/
def nextStart (object : GappedObject) : Nat :=
  byteLength ('{' :: object.opening :: (leadingText object.before ++
    (object.prior.text ++ object.gap.1 :: object.next.before.text)))

/-- Whether leaving out the comma costs one problem, at the key behind the gap, and neither key nor
value. -/
def CostsOneProblem (options : ReadOptions) (object : GappedObject) : Prop :=
  ∃ broken whole properties others,
    parse { options with onError := .recover } (String.ofList (object.text object.gap)) =
        .ok broken ∧
      parse { options with onError := .recover } (String.ofList (object.text ',')) = .ok whole ∧
      broken.problems = [⟨.missingPropertySeparator, object.nextStart⟩] ∧ whole.problems = [] ∧
      broken.root = some (.object ⟨0, byteLength (object.text object.gap)⟩ properties) ∧
      whole.root = some (.object ⟨0, byteLength (object.text ',')⟩ others) ∧
      properties.map Property.bare = object.properties.map PropertyText.bare ∧
      others.map Property.bare = object.properties.map PropertyText.bare

/-- The text from the key behind the gap on. -/
def afterGap (object : GappedObject) : List Char :=
  object.next.key.text ++ (object.next.after.text ++
    ':' :: (object.next.back ++ moreText object.final object.more))

/-- Whether the first delimiter from the key behind the gap on, balanced brackets passed over, is the
colon behind that key. -/
def ColonFirst (object : GappedObject) : Prop :=
  (nextDelimiter? propertyDelimiters (.ofText object.afterGap)).map (·.here.position) =
    some (byteLength (object.next.key.text ++ object.next.after.text))

end GappedObject

/-! ### Rounds -/

section Rounds

variable {c : Cursor} {s : Session σ} {rest : List Char} (done : List (Property Value))

/-- Where a comma or the end is awaited, only these are taken. -/
theorem acceptToken_late {rule : ValueRule σ n} {x : Char} (hc : c.rest = x :: rest)
    (hx : x ≠ ',' ∧ x ≠ '}') (hn : c.rest.length < n) {draft : PropertyDraft}
    (hawaited : draft.awaited = .commaOrEnd) :
    acceptToken rule c hn (Cursor.rest_ne_nil hc) draft s = .error s := by
  unfold acceptToken
  simp [hawaited, hc, hx]

theorem Landing.delimiter_eq (landing : Landing c) {x : Char} (h : landing.here.rest = x :: rest) :
    landing.delimiter = x := by
  have hrest := landing.pass.rest_eq
  rw [h] at hrest
  exact (List.cons.inj hrest).1.symm

theorem recoverProperty_colon (hne : c.rest ≠ []) {draft : PropertyDraft} {landing : Landing c}
    (hland : nextDelimiter? draft.delimiters c = some landing) (hcolon : landing.delimiter = ':')
    {key : Key} {d : c.After} {t : Session σ} (hkey : readKey c s = (some (key, d), t))
    (hle : d.1.position ≤ landing.here.position) : recoverProperty c hne draft s =
      .again ⟨landing.after, landing.lt_after⟩
        ((draft.begin key t).1.colon landing.here.position) (draft.begin key t).2 := by
  unfold recoverProperty beginBeforeColon
  simp [hland, hcolon, hkey, hle]

/-- A key that no comma stands in front of is reported and begins its property all the same, if the
walk from it ends at the colon behind it. -/
theorem PropertyText.leads_late (p : PropertyText) (position : Nat) (last : Option (Property Value))
    (hs : s.Lenient) (hposition : c.position = p.keyStart position)
    (hc : c.rest = p.key.text ++ (p.after.text ++ ':' :: rest)) {landing : Landing c}
    (hland : nextDelimiter? propertyDelimiters c = some landing)
    (hcolon : c.Moves (p.key.text ++ p.after.text) landing.here) :
    ∃ d t, LeadsTo (propertyStep (n := n) valueRule) c ⟨done.toArray, last, .commaOrEnd⟩ s d
        ⟨(done ++ last.toList).toArray, some (p.opened position), .value⟩ t ∧
      c.Moves (p.key.text ++ (p.after.text ++ [':'])) d ∧
      s.Adds [⟨.missingPropertySeparator, c.position⟩] t := by
  let draft : PropertyDraft := ⟨done.toArray, last, .commaOrEnd⟩
  have hawaited : draft.awaited = .commaOrEnd := rfl
  obtain ⟨x, tail, hhead, hx⟩ := p.key.head
  have hother : x ≠ '/' ∧ x ≠ ',' ∧ x ≠ '}' := by
    refine ⟨?_, ?_, ?_⟩ <;> rintro rfl <;> exact hx (by decide)
  have hfirst : c.rest = x :: (tail ++ (p.after.text ++ ':' :: rest)) := by
    rw [hc, hhead, List.cons_append]
  -- the key is read by a session that has reported the missing comma
  have hadds := Session.Adds.commit hs .missingPropertySeparator c.position
  have hend : tokenMayEnd (p.after.text ++ ':' :: rest) = true :=
    p.after.tokenMayEnd (tokenMayEnd_cons (by decide))
  obtain ⟨e, t, hkey, he, hquiet⟩ := p.key.finds (hadds.lenient hs).neutral hc hend
  have hle : e.1.position ≤ landing.here.position := by
    rw [he.position_eq, hcolon.position_eq, byteLength_append]
    omega
  have htext : c.rest = (p.key.text ++ p.after.text) ++ ':' :: rest := by
    rw [hc, List.append_assoc]
  have hdelimiter : landing.delimiter = ':' := landing.delimiter_eq (hcolon.rest_of htext)
  have hpass := landing.pass
  rw [hdelimiter] at hpass
  have hdelimiters : nextDelimiter? draft.delimiters c = some landing := by
    rw [draft.delimiters_eq (by simp [hawaited])]
    exact hland
  have hround := leadsTo_of_again hs.neutral.going
    (head?_any_isBlank hfirst (isBlank_of_not_mem_breakChars hx)) fun hn =>
      (propertyStep_of_reject (valueRule (n := n)) hs hfirst hother.1 hn
        (acceptToken_late hfirst hother.2 hn hawaited)).trans
        (recoverProperty_colon (Cursor.rest_ne_nil hfirst) hdelimiters hdelimiter hkey hle)
  have hopened : (draft.begin (p.key.key.shift c.position) t).1.colon landing.here.position =
      ⟨(done ++ last.toList).toArray, some (p.opened position), .value⟩ := by
    have hplace : landing.here.position = p.colonAt position := by
      rw [hcolon.position_eq, hposition, keyStart, colonAt, front, byteLength_append,
        byteLength_append, byteLength_append]
      omega
    rw [PropertyDraft.begin_eq, hplace, hposition]
    rfl
  rw [hopened] at hround
  refine ⟨_, _, hround, ?_, hadds.quiet (hquiet.trans (draft.quiet_begin _ t))⟩
  simpa using hcolon.trans hpass

/-- Whole properties with a comma behind each lead behind the last of the commas. -/
theorem leads_leading (before : List PropertyText) (hwhole : ∀ p ∈ before, p.Whole)
    (last : Option (Property Value)) (hs : s.Lenient) (hc : c.rest = leadingText before ++ rest) :
    ∃ done' last' d t, LeadsTo (propertyStep (n := n) valueRule) c ⟨done.toArray, last, .keyOrEnd⟩ s d
        ⟨List.toArray done', last', .keyOrEnd⟩ t ∧
      (done' ++ last'.toList).map Property.bare =
        (done ++ last.toList).map Property.bare ++ before.map PropertyText.bare ∧
      c.Moves (leadingText before) d ∧ s.Adds [] t := by
  induction before generalizing c s done last with
  | nil => exact ⟨done, last, c, s, .refl, by simp, .refl c, .refl s⟩
  | cons p before ih =>
    obtain ⟨hp, hbefore⟩ := List.forall_mem_cons.mp hwhole
    have htext : c.rest = p.front ++ ':' :: (p.back ++ ',' :: (leadingText before ++ rest)) := by
      simpa [leadingText, PropertyText.text] using hc
    obtain ⟨d, t, hfront, hd, hquiet⟩ := p.leads_front (n := n) done last hs htext
    have ht := hquiet.lenient hs
    have hback : d.rest = p.back ++ ',' :: (leadingText before ++ rest) :=
      hd.rest_of (by simpa using htext)
    obtain ⟨e, u, hvalue, he, hadds⟩ :=
      p.leads_back (n := n) (done ++ last.toList) c.position ht (p.position_of_front hd) hback
    rw [hp.problems_eq] at hadds
    have hleft : e.rest = leadingText before ++ rest := he.rest_of (by simpa using hback)
    obtain ⟨done', last', f, v, hleads, hbare, hf, hmore⟩ :=
      ih _ hbefore _ (hadds.lenient ht) hleft
    refine ⟨done', last', f, v, (hfront.trans hvalue).trans hleads, ?_, ?_, ?_⟩
    · rw [hbare]
      simp [PropertyText.bare_property]
    · simpa [leadingText, PropertyText.text] using hd.trans (he.trans hf)
    · simpa using (Session.Adds.of_quiet hquiet).trans (hadds.trans hmore)

end Rounds

/-! ### Objects -/

namespace GappedObject

variable {c : Cursor} {s : Session σ} (object : GappedObject)

/-- Wherever the text behind the gap stands, the walk over it ends at the colon if it does so alone. -/
theorem ColonFirst.landing {object : GappedObject} (h : object.ColonFirst)
    (hc : c.rest = object.afterGap) :
    ∃ landing, nextDelimiter? propertyDelimiters c = some landing ∧
      c.Moves (object.next.key.text ++ object.next.after.text) landing.here := by
  obtain ⟨alone, halone, hplace⟩ := Option.map_eq_some_iff.mp h
  have hembeds : (Cursor.ofText object.afterGap).Embeds c.position [] c :=
    Cursor.embeds_ofText (by rw [hc, List.append_nil])
  obtain ⟨landing, hland, -, hhere⟩ := nextDelimiter?_embeds hembeds halone
  have htext : c.rest = (object.next.key.text ++ object.next.after.text) ++
      ':' :: (object.next.back ++ moreText object.final object.more) := by
    rw [hc, afterGap, List.append_assoc]
  obtain ⟨d, hd, -⟩ := Cursor.exists_moves htext
  have hsame : landing.here.position = d.position := by
    rw [hhere.position_eq, hplace, hd.position_eq, Nat.add_comm]
  exact ⟨landing, hland, hd.of_position landing.reach hsame⟩

/-- The walk ends at the colon if it passes over the key in front of it. -/
theorem colonFirst_of_passable (h : Passable propertyDelimiters object.next.key.text) :
    object.ColonFirst := by
  have hpassable := h.append (object.next.after.passable (by decide))
  have htext : (Cursor.ofText object.afterGap).rest =
      (object.next.key.text ++ object.next.after.text) ++
        ':' :: (object.next.back ++ moreText object.final object.more) := by
    rw [List.append_assoc]
    rfl
  obtain ⟨landing, hland, -, hhere⟩ := hpassable.nextDelimiter? (by decide) htext
  rw [ColonFirst, hland, Option.map_some, hhere.position_eq]
  simp [Cursor.ofText]

/-- With its comma the object is read to its closing brace. -/
theorem endsAt_whole (hs : s.Lenient) (hc : c.rest = object.body ',') :
    ∃ e last t, EndsAt (propertyStep (n := n) valueRule) c {} s e last t ∧
      last.properties.map Property.bare = object.properties.map PropertyText.bare ∧
      c.Moves (object.body ',') e ∧ s.Adds [] t := by
  obtain ⟨first, others, hproperties, hbody⟩ :=
    exists_first object.before object.prior (object.next :: object.more) object.final
  have hwhole : ∀ p ∈ first :: others, p.Whole := hproperties ▸ object.whole
  have htext : object.body ',' = first.text ++ moreText object.final others := by
    rw [← hbody, body, moreText]
  rw [htext] at hc ⊢
  obtain ⟨e, last, t, hend, hlast, he, hadds⟩ :=
    object_endAt (n := n) first others object.final hs hc
  rw [propertyProblemsAt_of_whole hwhole] at hadds
  refine ⟨e, last, t, hend, ?_, he, hadds⟩
  rw [hlast, bare_propertiesAt, properties, hproperties]

/-- From the gap on the object is read to its closing brace, with a problem at the key behind it. -/
theorem endsAt_late (h : object.ColonFirst) (done : List (Property Value))
    (last : Option (Property Value)) (hs : s.Lenient)
    (hc : c.rest = (object.gap.1 :: object.next.before.text) ++ object.afterGap) :
    ∃ e final t, EndsAt (propertyStep (n := n) valueRule) c ⟨done.toArray, last, .commaOrEnd⟩ s
        e final t ∧
      final.properties.map Property.bare =
        (done ++ last.toList).map Property.bare ++ (object.next :: object.more).map PropertyText.bare ∧
      c.Moves ((object.gap.1 :: object.next.before.text) ++ object.afterGap) e ∧
      s.Adds [⟨.missingPropertySeparator,
        c.position + byteLength (object.gap.1 :: object.next.before.text)⟩] t := by
  have hmore : ∀ p ∈ object.next :: object.more, p.Whole :=
    (List.forall_mem_cons.mp (List.forall_mem_append.mp object.whole).2).2
  obtain ⟨d, hblanks, hd, hkey⟩ :=
    (⟨object.gap.1 :: object.next.before.text,
      List.forall_mem_cons.mpr ⟨object.gap.2, object.next.before.blank⟩⟩ : Blanks).leads
      (propertyStep (n := n) valueRule) ⟨done.toArray, last, .commaOrEnd⟩ hs.neutral.going hc
  -- the property behind the gap starts right after the one character that stands for the comma
  let position := c.position + byteLength [object.gap.1]
  have hstart : d.position = object.next.keyStart position := by
    rw [hd.position_eq, PropertyText.keyStart, Nat.add_assoc, ← byteLength_append]
    rfl
  obtain ⟨landing, hland, hcolon⟩ := h.landing hkey
  obtain ⟨e, t, hlate, he, hproblem⟩ :=
    object.next.leads_late (n := n) done position last hs hstart hkey hland hcolon
  have hleft : e.rest = object.next.back ++ (moreText object.final object.more ++ []) :=
    he.rest_of (by simpa [afterGap] using hkey)
  have hcolonAt : e.position = object.next.colonAt position + 1 := by
    rw [he.position_eq, hstart, PropertyText.keyStart, PropertyText.colonAt, PropertyText.front]
    simp only [byteLength_append, Nat.add_assoc]
    rfl
  obtain ⟨f, final, u, hend, hproperties, hf, hproblems⟩ :=
    properties_endAt (done ++ last.toList) object.next object.more object.final position
      (hproblem.lenient hs) hcolonAt hleft
  rw [propertyProblemsAt_of_whole hmore] at hproblems
  refine ⟨f, final, u, (hblanks.trans hlate).endsAt hend, ?_, ?_, ?_⟩
  · rw [hproperties, List.map_append, bare_propertiesAt]
  · simpa [afterGap] using hd.trans (he.trans hf)
  · rw [← hd.position_eq]
    exact hproblem.trans hproblems

/-- Without the comma the object is read to its closing brace all the same. -/
theorem endsAt_gap (h : object.ColonFirst) (hs : s.Lenient) (hc : c.rest = object.body object.gap)
    (hposition : c.position = byteLength ['{', object.opening.1]) :
    ∃ e last t, EndsAt (propertyStep (n := n) valueRule) c {} s e last t ∧
      last.properties.map Property.bare = object.properties.map PropertyText.bare ∧
      c.Moves (object.body object.gap) e ∧
      s.Adds [⟨.missingPropertySeparator, object.nextStart⟩] t := by
  obtain ⟨hbefore, hmore⟩ := List.forall_mem_append.mp object.whole
  obtain ⟨⟨v, hcontent⟩, -⟩ := List.forall_mem_cons.mp hmore
  have htext : c.rest = leadingText object.before ++ (object.prior.front ++ ':' ::
      (object.prior.back ++ object.gap.1 :: (object.next.before.text ++ object.afterGap))) := by
    simpa [body, PropertyText.text, PropertyText.front, afterGap] using hc
  obtain ⟨done, last, d, t, hleads, hbare, hd, hadds⟩ :=
    leads_leading (n := n) [] object.before hbefore none hs htext
  have ht := hadds.lenient hs
  have hprior := hd.rest_of htext
  obtain ⟨e, u, hfront, he, hquiet⟩ := object.prior.leads_front (n := n) done last ht hprior
  have hu := hquiet.lenient ht
  have hvalue : e.rest =
      object.prior.back ++ object.gap.1 :: (object.next.before.text ++ object.afterGap) :=
    he.rest_of (by simpa using hprior)
  obtain ⟨f, v, hfill, hf, hquiet'⟩ := object.prior.leads_value (n := n) (done ++ last.toList) hcontent
    (mem_breakChars_of_isBlank object.gap.2) d.position hu (object.prior.position_of_front he) hvalue
  have hgap : f.rest = (object.gap.1 :: object.next.before.text) ++ object.afterGap :=
    hf.rest_of (by simpa using hvalue)
  obtain ⟨g, final, w, hend, hproperties, hg, hproblem⟩ :=
    object.endsAt_late h (n := n) _ _ (hquiet'.lenient hu) hgap
  have hplace : f.position + byteLength (object.gap.1 :: object.next.before.text) =
      object.nextStart := by
    rw [(hd.trans (he.trans hf)).position_eq, hposition, ← byteLength_append, ← byteLength_append,
      nextStart]
    congr 1
    simp [PropertyText.text]
  rw [hplace] at hproblem
  refine ⟨g, final, w, ((hleads.trans hfront).trans hfill).endsAt hend, ?_, ?_, ?_⟩
  · rw [hproperties, List.map_append, hbare]
    simp [properties, PropertyText.bare_property]
  · simpa [body, PropertyText.text, PropertyText.front, afterGap] using
      hd.trans (he.trans (hf.trans hg))
  · exact hadds.trans ((Session.Adds.of_quiet hquiet).trans
      ((Session.Adds.of_quiet hquiet').trans hproblem))

/-- An object of two properties, with a space behind its brace, behind each colon and in the gap. -/
def pair (key : KeyText) (value : ValueText) (key' : KeyText) (value' : ValueText) : GappedObject :=
  let nothing : Blanks := ⟨[], by simp⟩
  let space : Blanks := ⟨[' '], List.forall_mem_singleton.mpr rfl⟩
  { opening := ⟨' ', by decide⟩
    before := []
    prior := ⟨nothing, key, nothing, space, .value value, nothing⟩
    gap := ⟨' ', by decide⟩
    next := ⟨nothing, key', nothing, space, .value value', nothing⟩
    more := []
    final := none
    whole := by simp [PropertyText.Whole] }

end GappedObject

/-- Under recovery a comma that is left out costs one problem, at the key behind the gap, and no key
and no value, if the first delimiter from that key on is the colon behind it. -/
theorem parse_gap_recovered (options : ReadOptions) (object : GappedObject) (h : object.ColonFirst) :
    object.CostsOneProblem options := by
  obtain ⟨broken, properties, hbroken, hroot, hproperties, hproblems, -⟩ :=
    parse_object { options with onError := .recover } rfl object.opening.2
      (·.map Property.bare = object.properties.map PropertyText.bare)
      fun n s c hs hc hposition => object.endsAt_gap h hs hc hposition
  obtain ⟨whole, others, hwhole, hother, hothers, hnone, -⟩ :=
    parse_object { options with onError := .recover } rfl object.opening.2
      (·.map Property.bare = object.properties.map PropertyText.bare)
      fun n s c hs hc _ => object.endsAt_whole hs hc
  exact ⟨broken, whole, properties, others, hbroken, hwhole, hproblems, hnone, hroot, hother,
    hproperties, hothers⟩

/-- The object `{ x: 1 "(,)": 2}`. -/
def quotedGroup : GappedObject :=
  .pair (.identifier ⟨'x', [], by decide, by simp⟩) ⟨['1'], by decide, by decide +kernel⟩
    (.value ⟨['"', '(', ',', ')', '"'], by decide, by decide +kernel⟩ (by decide +kernel))
    ⟨['2'], by decide, by decide +kernel⟩

theorem parse_quotedGroup : quotedGroup.ColonFirst ∧ quotedGroup.CostsOneProblem {} := by
  have hgroup : Passable propertyDelimiters ('(' :: ([',', ')'] ++ ['"'])) :=
    .group (by decide) (by decide +kernel) (.char (by decide) .nil)
  have h : quotedGroup.ColonFirst := quotedGroup.colonFirst_of_passable (.char (by decide) hgroup)
  exact ⟨h, parse_gap_recovered {} quotedGroup h⟩

/-- The object `{ x: 1 "a,b": 2}`. -/
def quotedComma : GappedObject :=
  .pair (.identifier ⟨'x', [], by decide, by simp⟩) ⟨['1'], by decide, by decide +kernel⟩
    (.value ⟨['"', 'a', ',', 'b', '"'], by decide, by decide +kernel⟩ (by decide +kernel))
    ⟨['2'], by decide, by decide +kernel⟩

/-- A comma inside the key ends the walk early, and the reading goes on inside the key; and where the
value in front of the gap leaves braces open, as in `{ x: "{{" y: "}}"}`, the gap can be in a string. -/
theorem gap_costs_other : ¬ quotedComma.CostsOneProblem {} ∧
    (parse { onError := .recover } (String.ofList
      ['{', ' ', 'x', ':', ' ', '"', '{', '{', '"', ' ', 'y', ':', ' ', '"', '}', '}', '"', '}']
      )).toOption.map (·.problems) = some [] := by
  refine ⟨?_, by decide +kernel⟩
  rintro ⟨broken, _, _, _, hbroken, -, hproblems, -⟩
  have hcount : (parse { onError := .recover } (String.ofList (quotedComma.text ' '))).toOption.map
      (·.problems.length) = some 2 := by decide +kernel
  have hsame : parse { onError := .recover } (String.ofList (quotedComma.text ' ')) = .ok broken :=
    hbroken
  rw [hsame] at hcount
  simp [Except.toOption, hproblems] at hcount

end DataTemplate
