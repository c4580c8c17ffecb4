/-
Objects with garbage in place of some of their values.  Each property of such an object is read by
itself, whatever the others hold; a property with garbage has no value.  Main statements:
`PropertyText.leads_front`, `PropertyText.leads_back`, `properties_endAt` and
`parse_properties_recovered`.
-/
import DataTemplate.Proofs.Recovery

namespace DataTemplate

variable {σ : Type} {n : Nat}

/-! ### Texts of objects -/

/-- The delimiters of an object that does not wait for a colon. -/
def propertyDelimiters : List Char := [',', ':', '}']

/-- The text of a property: white space around its key, and around its value or garbage. -/
structure PropertyText where
  before : Blanks
  key : KeyText
  after : Blanks
  beforeValue : Blanks
  content : Entry propertyDelimiters
  last : Blanks

namespace PropertyText

/-- The spelling of a property in front of its colon. -/
def front (p : PropertyText) : List Char := p.before.text ++ (p.key.text ++ p.after.text)

/-- The spelling of a property behind its colon. -/
def back (p : PropertyText) : List Char := p.beforeValue.text ++ (p.content.text ++ p.last.text)

/-- The spelling of a property. -/
def text (p : PropertyText) : List Char := p.front ++ ':' :: p.back

/-- Where the key of a property starts that starts at `position`. -/
def keyStart (position : Nat) (p : PropertyText) : Nat := position + byteLength p.before.text

/-- Where the colon of a property is that starts at `position`. -/
def colonAt (position : Nat) (p : PropertyText) : Nat := position + byteLength p.front

/-- Where the value or the garbage of a property starts that starts at `position`. -/
def valueStart (position : Nat) (p : PropertyText) : Nat :=
  p.colonAt position + 1 + byteLength p.beforeValue.text

/-- The property that starts at `position`, as it is once its colon is read. -/
def opened (position : Nat) (p : PropertyText) : Property Value :=
  ⟨p.key.key.shift (p.keyStart position), some (p.colonAt position), none, none⟩

/-- The property that starts at `position`, with its comma if it has one. -/
def property (position : Nat) (comma : Option Nat) (p : PropertyText) : Property Value :=
  { p.opened position with value := p.content.value? (p.valueStart position), comma := comma }

/-- The problems with the property that starts at `position`. -/
def problems (position : Nat) (p : PropertyText) : List Problem :=
  p.content.problems .missingValue (p.valueStart position)

theorem byteLength_text (p : PropertyText) :
    byteLength p.text = byteLength p.front + 1 + byteLength p.back := by
  rw [text, byteLength_append, byteLength_cons]
  have hcolon : ':'.utf8Size = 1 := rfl
  omega

end PropertyText

/-- The spelling of an object behind its last property: its brace, behind a final comma if there is
one. -/
def closingText : Option Blanks → List Char
  | none => ['}']
  | some blanks => ',' :: (blanks.text ++ ['}'])

/-- The spelling of an object behind one of its properties, with the others that are left. -/
def moreText (final : Option Blanks) : List PropertyText → List Char
  | [] => closingText final
  | p :: more => ',' :: (p.text ++ moreText final more)

/-- The properties of an object, the first of which starts at `position`. -/
def propertiesAt (final : Option Blanks) (position : Nat) (first : PropertyText) :
    List PropertyText → List (Property Value)
  | [] => [first.property position (final.map fun _ => position + byteLength first.text)]
  | p :: more =>
    first.property position (some (position + byteLength first.text)) ::
      propertiesAt final (position + byteLength first.text + 1) p more

/-- The problems with the properties of an object, the first of which starts at `position`. -/
def propertyProblemsAt (position : Nat) (first : PropertyText) : List PropertyText → List Problem
  | [] => first.problems position
  | p :: more =>
    first.problems position ++ propertyProblemsAt (position + byteLength first.text + 1) p more

/-! ### Drafts -/

theorem PropertyDraft.begin_eq (done : List (Property Value)) (last : Option (Property Value))
    (awaited : Awaited) (key : Key) (s : Session σ) :
    (PropertyDraft.begin ⟨done.toArray, last, awaited⟩ key s).1 =
      ⟨(done ++ last.toList).toArray, some ⟨key, none, none, none⟩, .colon⟩ := by
  cases last <;> simp [begin, flush]

theorem PropertyDraft.quiet_begin (draft : PropertyDraft) (key : Key) (s : Session σ) :
    s.Quiet (draft.begin key s).2 := .flush s draft

theorem PropertyDraft.delimiters_eq (draft : PropertyDraft) (h : draft.awaited ≠ .colon) :
    draft.delimiters = propertyDelimiters := if_neg h

/-! ### Rounds -/

section Recovering

variable (rule : ValueRule σ n) {c : Cursor} {x : Char} {rest : List Char} {s : Session σ}
  {draft : PropertyDraft} {landing : Landing c}

/-- A round that meets what is not awaited reports it and goes on at the next delimiter. -/
theorem propertyStep_of_reject (hs : s.Lenient) (hc : c.rest = x :: rest) (hx : x ≠ '/')
    (hn : c.rest.length < n)
    (hreject : acceptToken rule c hn (Cursor.rest_ne_nil hc) draft s = .error s) :
    propertyStep rule c hn draft s = recoverProperty c (Cursor.rest_ne_nil hc) draft
      (s.commit draft.awaited.missing c.position) := by
  have hcomment : c.comment? = none := Cursor.comment?_eq_none (by simpa [hc] using hx)
  have hgo := ((Session.Adds.commit hs draft.awaited.missing c.position).lenient hs).neutral.going
  unfold propertyStep
  rw [dif_neg (Cursor.rest_ne_nil hc), hcomment]
  simp only [hreject, hgo]
  rfl

theorem propertyStep_garbage (g : Garbage propertyDelimiters) (hs : s.Lenient)
    (hc : c.rest = g.text ++ rest) (hne : c.rest ≠ []) (hn : c.rest.length < n)
    (hawaited : draft.awaited = .value) (hnone : rule c hn s = (none, s)) :
    propertyStep rule c hn draft s =
      recoverProperty c hne draft (s.commit .missingValue c.position) := by
  have hhead : c.rest = g.first :: (g.more ++ rest) := hc
  rw [propertyStep_of_reject rule hs hhead g.not_comment hn, hawaited]
  · rfl
  · unfold acceptToken
    simp [hawaited, hnone]

theorem recoverProperty_comma (hne : c.rest ≠ []) (hland : nextDelimiter? draft.delimiters c = some landing)
    (hcomma : landing.delimiter = ',') : recoverProperty c hne draft s =
      .again ⟨landing.after, landing.lt_after⟩ (draft.comma landing.here.position) s := by
  unfold recoverProperty
  simp [hland, hcomma]

theorem recoverProperty_close (hne : c.rest ≠ []) (hland : nextDelimiter? draft.delimiters c = some landing)
    (hclose : landing.delimiter = '}') : recoverProperty c hne draft s =
      .stop ⟨landing.after, Cursor.le_of_lt landing.lt_after⟩ draft true s := by
  unfold recoverProperty
  simp [hland, hclose]

end Recovering

section Rounds

variable {c : Cursor} {s : Session σ} {rest : List Char} (done : List (Property Value))

/-- The key of a property and its colon lead to its value. -/
theorem PropertyText.leads_front (p : PropertyText) (last : Option (Property Value)) (hs : s.Lenient)
    (hc : c.rest = p.front ++ ':' :: rest) :
    ∃ d t, LeadsTo (propertyStep (n := n) valueRule) c ⟨done.toArray, last, .keyOrEnd⟩ s d
        ⟨(done ++ last.toList).toArray, some (p.opened c.position), .value⟩ t ∧
      c.Moves (p.front ++ [':']) d ∧ s.Quiet t := by
  let draft : PropertyDraft := ⟨done.toArray, last, .keyOrEnd⟩
  have hawaited : draft.awaited = .keyOrEnd := rfl
  have htext : c.rest = p.before.text ++ (p.key.text ++ (p.after.text ++ ':' :: rest)) := by
    simpa [front] using hc
  obtain ⟨d, hbefore, hd, hrest⟩ :=
    p.before.leads (propertyStep valueRule) draft hs.neutral.going htext
  have hend : tokenMayEnd (p.after.text ++ ':' :: rest) = true :=
    p.after.tokenMayEnd (tokenMayEnd_cons (by decide))
  obtain ⟨e, t, hkey, he, hquiet⟩ := p.key.finds hs.neutral hrest hend
  obtain ⟨x, tail, hhead, hx⟩ := p.key.head
  have hfirst : d.rest = x :: (tail ++ (p.after.text ++ ':' :: rest)) := by
    rw [hrest, hhead, List.cons_append]
  have hround := leadsTo_of_again hs.neutral.going
    (head?_any_isBlank hfirst (isBlank_of_not_mem_breakChars hx)) fun hn =>
      propertyStep_key (valueRule (n := n)) hfirst hx hn hawaited hkey
  rw [PropertyDraft.begin_eq] at hround
  let begun : PropertyDraft :=
    ⟨(done ++ last.toList).toArray, some ⟨p.key.key.shift d.position, none, none, none⟩, .colon⟩
  have hbegun : begun.awaited = .colon := rfl
  have hflushed := hquiet.trans (draft.quiet_begin (p.key.key.shift d.position) t)
  have hgo := (hflushed.neutral hs.neutral).going
  obtain ⟨f, hafter, hf, hcolon⟩ := p.after.leads (propertyStep valueRule) begun hgo (he.rest_of hrest)
  have htaken := leadsTo_of_again hgo (head?_any_isBlank hcolon (by decide)) fun hn =>
    propertyStep_colon (valueRule (n := n)) hcolon hn hbegun
  have hreach := hd.trans (he.trans hf)
  have hopened : p.opened c.position = ⟨p.key.key.shift d.position, some f.position, none, none⟩ := by
    rw [opened, keyStart, colonAt, hd.position_eq, hreach.position_eq]
    rfl
  rw [hopened]
  exact ⟨_, _, ((hbefore.trans hround).trans hafter).trans htaken,
    hreach.trans (Cursor.moves_next hcolon), hflushed⟩

/-- The value of a property leads to the delimiter behind it. -/
theorem PropertyText.leads_value (p : PropertyText) {v : ValueText} (hcontent : p.content = .value v)
    {x : Char} (hx : x ∈ breakChars) (position : Nat) (hs : s.Lenient)
    (hposition : c.position = p.colonAt position + 1) (hc : c.rest = p.back ++ x :: rest) :
    ∃ d t, LeadsTo (propertyStep (n := n) valueRule) c
        ⟨done.toArray, some (p.opened position), .value⟩ s d
        ⟨done.toArray, some (p.property position none), .commaOrEnd⟩ t ∧
      c.Moves p.back d ∧ s.Quiet t := by
  let draft : PropertyDraft := ⟨done.toArray, some (p.opened position), .value⟩
  have hawaited : draft.awaited = .value := rfl
  have htext : c.rest = p.beforeValue.text ++ (v.text ++ (p.last.text ++ x :: rest)) := by
    simpa [back, hcontent, Entry.text] using hc
  obtain ⟨d, hbefore, hd, hrest⟩ :=
    p.beforeValue.leads (propertyStep valueRule) draft hs.neutral.going htext
  have hend : tokenMayEnd (p.last.text ++ x :: rest) = true :=
    p.last.tokenMayEnd (tokenMayEnd_cons hx)
  obtain ⟨e, t, hvalue, he, hquiet⟩ := v.finds hs.neutral hrest hend
  obtain ⟨y, tail, hhead, hy⟩ := v.head
  have hfirst : d.rest = y :: (tail ++ (p.last.text ++ x :: rest)) := by
    rw [hrest, hhead, List.cons_append]
  have hround := leadsTo_of_again hs.neutral.going
    (head?_any_isBlank hfirst (isBlank_of_not_mem_breakChars hy)) fun hn =>
      propertyStep_value (valueRule (n := n)) hfirst hy hn hawaited hvalue
  obtain ⟨f, hlast, hf, -⟩ := p.last.leads (propertyStep valueRule) _
    (hquiet.neutral hs.neutral).going (he.rest_of hrest)
  have hstart : d.position = p.valueStart position := by
    rw [hd.position_eq, hposition, valueStart]
  have hfilled : draft.fill (v.value.shift d.position) =
      ⟨done.toArray, some (p.property position none), .commaOrEnd⟩ := by
    rw [property, hcontent, hstart]
    rfl
  rw [hfilled] at hround
  refine ⟨f, t, (hbefore.trans hround).trans hlast, ?_, hquiet⟩
  rw [back, hcontent]
  exact hd.trans (he.trans hf)

/-- The garbage of a property is met, and from there the reading recovers at the delimiter behind
it. -/
theorem PropertyText.leads_garbage (p : PropertyText) {g : Garbage propertyDelimiters}
    (hcontent : p.content = .garbage g) {x : Char} (hx : x ∈ propertyDelimiters) (position : Nat)
    (hs : s.Lenient) (hposition : c.position = p.colonAt position + 1)
    (hc : c.rest = p.back ++ x :: rest) {draft : PropertyDraft} (hawaited : draft.awaited = .value) :
    ∃ d landing, LeadsTo (propertyStep (n := n) valueRule) c draft s d draft s ∧
      d.rest.head?.any isBlank = false ∧ nextDelimiter? draft.delimiters d = some landing ∧
      landing.delimiter = x ∧ c.Moves p.back landing.here ∧
      ∀ hn hne, propertyStep (n := n) valueRule d hn draft s =
        recoverProperty d hne draft (s.commit .missingValue (p.valueStart position)) := by
  have htext : c.rest = p.beforeValue.text ++ (g.text ++ (p.last.text ++ x :: rest)) := by
    simpa [back, hcontent, Entry.text] using hc
  obtain ⟨d, hbefore, hd, hrest⟩ :=
    p.beforeValue.leads (propertyStep valueRule) draft hs.neutral.going htext
  obtain ⟨landing, hland, hdelimiter, hmoves⟩ :=
    g.nextDelimiter? p.last hx (by decide) hrest
  have hdelimiters := draft.delimiters_eq (by simp [hawaited])
  have hstart : p.valueStart position = d.position := by
    rw [hd.position_eq, hposition, valueStart]
  rw [back, hcontent, hstart, hdelimiters]
  exact ⟨d, landing, hbefore, head?_any_isBlank hrest g.not_blank, hland, hdelimiter,
    hd.trans hmoves, fun hn hne =>
      propertyStep_garbage valueRule g hs hrest hne hn hawaited (readValue_garbage g hrest s)⟩

/-- The value or the garbage of a property leads behind the comma after it. -/
theorem PropertyText.leads_back (p : PropertyText) (position : Nat) (hs : s.Lenient)
    (hposition : c.position = p.colonAt position + 1) (hc : c.rest = p.back ++ ',' :: rest) :
    ∃ d t, LeadsTo (propertyStep (n := n) valueRule) c
        ⟨done.toArray, some (p.opened position), .value⟩ s d
        ⟨done.toArray, some (p.property position (some (position + byteLength p.text))), .keyOrEnd⟩ t ∧
      c.Moves (p.back ++ [',']) d ∧ s.Adds (p.problems position) t := by
  have hcomma {d : Cursor} (hd : c.Moves p.back d) : d.position = position + byteLength p.text := by
    rw [hd.position_eq, hposition, colonAt, p.byteLength_text]
    omega
  cases hcontent : p.content with
  | value v =>
    let filled : PropertyDraft := ⟨done.toArray, some (p.property position none), .commaOrEnd⟩
    have hawaited : filled.awaited = .commaOrEnd := rfl
    obtain ⟨d, t, hleads, hd, hquiet⟩ :=
      p.leads_value (n := n) done hcontent (by decide) position hs hposition hc
    have hrest := hd.rest_of hc
    have hround := leadsTo_of_again (hquiet.neutral hs.neutral).going
      (head?_any_isBlank hrest (by decide)) fun hn =>
        propertyStep_comma (valueRule (n := n)) hrest hn hawaited
    rw [hcomma hd] at hround
    refine ⟨_, t, hleads.trans hround, hd.trans (Cursor.moves_next hrest), ?_⟩
    rw [problems, hcontent]
    exact .of_quiet hquiet
  | garbage g =>
    let draft : PropertyDraft := ⟨done.toArray, some (p.opened position), .value⟩
    have hawaited : draft.awaited = .value := rfl
    obtain ⟨d, landing, hleads, hblank, hland, hdelimiter, hd, hstep⟩ :=
      p.leads_garbage (n := n) hcontent (by decide) position hs hposition hc hawaited
    have hne : d.rest ≠ [] := Cursor.rest_ne_nil_of_lt landing.lt_after
    have hround := leadsTo_of_again hs.neutral.going hblank fun hn =>
      (hstep hn hne).trans (recoverProperty_comma hne hland hdelimiter)
    have hpass := landing.pass
    rw [hdelimiter] at hpass
    have hsame : draft.comma landing.here.position =
        ⟨done.toArray, some (p.property position (some (position + byteLength p.text))), .keyOrEnd⟩ := by
      rw [hcomma hd, property, hcontent]
      rfl
    rw [hsame] at hround
    refine ⟨_, _, hleads.trans hround, hd.trans hpass, ?_⟩
    rw [problems, hcontent]
    exact .commit hs _ _

/-- The value or the garbage of the last property leads behind the closing brace. -/
theorem PropertyText.endsAt_back (p : PropertyText) (position : Nat) (hs : s.Lenient)
    (hposition : c.position = p.colonAt position + 1) (hc : c.rest = p.back ++ '}' :: rest) :
    ∃ e last t, EndsAt (propertyStep (n := n) valueRule) c
        ⟨done.toArray, some (p.opened position), .value⟩ s e last t ∧
      last.properties = done ++ [p.property position none] ∧
      c.Moves (p.back ++ ['}']) e ∧ s.Adds (p.problems position) t := by
  cases hcontent : p.content with
  | value v =>
    let filled : PropertyDraft := ⟨done.toArray, some (p.property position none), .commaOrEnd⟩
    have hawaited : filled.awaited = .keyOrEnd ∨ filled.awaited = .commaOrEnd := .inr rfl
    obtain ⟨d, t, hleads, hd, hquiet⟩ :=
      p.leads_value (n := n) done hcontent (by decide) position hs hposition hc
    have hrest := hd.rest_of hc
    have hend : EndsAt (propertyStep (n := n) valueRule) d filled t _ filled t :=
      roundsEnd_of_stop (hquiet.neutral hs.neutral).going (head?_any_isBlank hrest (by decide))
        fun hn => propertyStep_close (valueRule (n := n)) hrest hn hawaited
    refine ⟨_, filled, t, hleads.endsAt hend, ?_, hd.trans (Cursor.moves_next hrest), ?_⟩
    · simp [PropertyDraft.properties, filled]
    · rw [problems, hcontent]
      exact .of_quiet hquiet
  | garbage g =>
    let draft : PropertyDraft := ⟨done.toArray, some (p.opened position), .value⟩
    have hawaited : draft.awaited = .value := rfl
    obtain ⟨d, landing, hleads, hblank, hland, hdelimiter, hd, hstep⟩ :=
      p.leads_garbage (n := n) hcontent (by decide) position hs hposition hc hawaited
    have hne : d.rest ≠ [] := Cursor.rest_ne_nil_of_lt landing.lt_after
    have hend : EndsAt (propertyStep (n := n) valueRule) d draft s _ draft _ :=
      roundsEnd_of_stop hs.neutral.going hblank fun hn =>
        (hstep hn hne).trans (recoverProperty_close hne hland hdelimiter)
    have hpass := landing.pass
    rw [hdelimiter] at hpass
    refine ⟨_, draft, _, hleads.endsAt hend, ?_, hd.trans hpass, ?_⟩
    · rw [property, hcontent]
      simp [PropertyDraft.properties, draft, Entry.value?, opened]
    · rw [problems, hcontent]
      exact .commit hs _ _

theorem PropertyText.position_of_front (p : PropertyText) {d : Cursor}
    (hd : c.Moves (p.front ++ [':']) d) : d.position = p.colonAt c.position + 1 := by
  rw [hd.position_eq, byteLength_append, colonAt, ← Nat.add_assoc]
  rfl

/-- The value or the garbage of the last property leads behind the closing brace, over a final comma
if there is one. -/
theorem PropertyText.endsAt_closing (p : PropertyText) (final : Option Blanks) (position : Nat)
    (hs : s.Lenient) (hposition : c.position = p.colonAt position + 1)
    (hc : c.rest = p.back ++ (closingText final ++ rest)) :
    ∃ e last t, EndsAt (propertyStep (n := n) valueRule) c
        ⟨done.toArray, some (p.opened position), .value⟩ s e last t ∧
      last.properties = done ++ propertiesAt final position p [] ∧
      c.Moves (p.back ++ closingText final) e ∧ s.Adds (p.problems position) t := by
  cases final with
  | none => exact p.endsAt_back done position hs hposition hc
  | some blanks =>
    have htext : c.rest = p.back ++ ',' :: (blanks.text ++ '}' :: rest) := by
      simpa [closingText] using hc
    obtain ⟨d, t, hback, hd, hadds⟩ :=
      p.leads_back (n := n) done position hs hposition htext
    have hgo := (hadds.lenient hs).neutral.going
    let last : PropertyDraft :=
      ⟨done.toArray, some (p.property position (some (position + byteLength p.text))), .keyOrEnd⟩
    have hawaited : last.awaited = .keyOrEnd ∨ last.awaited = .commaOrEnd := .inl rfl
    have hrest : d.rest = blanks.text ++ '}' :: rest := hd.rest_of (by simpa using htext)
    obtain ⟨e, hblanks, he, hbrace⟩ := blanks.leads (propertyStep valueRule) last hgo hrest
    have hend : EndsAt (propertyStep (n := n) valueRule) e last t _ last t :=
      roundsEnd_of_stop hgo (head?_any_isBlank hbrace (by decide))
        fun hn => propertyStep_close (valueRule (n := n)) hbrace hn hawaited
    refine ⟨_, last, t, (hback.trans hblanks).endsAt hend, ?_, ?_, hadds⟩
    · simp [PropertyDraft.properties, last, propertiesAt]
    · simpa [closingText] using hd.trans (he.trans (Cursor.moves_next hbrace))

/-- What is left of an object behind a colon leads behind its closing brace. -/
theorem properties_endAt (p : PropertyText) (more : List PropertyText) (final : Option Blanks)
    (position : Nat) (hs : s.Lenient) (hposition : c.position = p.colonAt position + 1)
    (hc : c.rest = p.back ++ (moreText final more ++ rest)) :
    ∃ e last t, EndsAt (propertyStep (n := n) valueRule) c
        ⟨done.toArray, some (p.opened position), .value⟩ s e last t ∧
      last.properties = done ++ propertiesAt final position p more ∧
      c.Moves (p.back ++ moreText final more) e ∧
      s.Adds (propertyProblemsAt position p more) t := by
  induction more generalizing c s done p position with
  | nil => exact p.endsAt_closing done final position hs hposition hc
  | cons q more ih =>
    have htext : c.rest = p.back ++ ',' :: (q.text ++ (moreText final more ++ rest)) := by
      simpa [moreText] using hc
    obtain ⟨d, t, hback, hd, hadds⟩ :=
      p.leads_back (n := n) done position hs hposition htext
    have ht := hadds.lenient hs
    have hrest : d.rest = q.front ++ ':' :: (q.back ++ (moreText final more ++ rest)) := by
      have hsplit : c.rest = (p.back ++ [',']) ++ (q.text ++ (moreText final more ++ rest)) := by
        simpa using htext
      simpa [PropertyText.text] using hd.rest_of hsplit
    have hnext : d.position = position + byteLength p.text + 1 := by
      rw [hd.position_eq, hposition, PropertyText.colonAt, p.byteLength_text, byteLength_append]
      have hcomma : byteLength [','] = 1 := rfl
      omega
    obtain ⟨e, u, hfront, he, hquiet⟩ := q.leads_front (n := n) _ _ ht hrest
    have hleft : e.rest = q.back ++ (moreText final more ++ rest) :=
      he.rest_of (by simpa using hrest)
    obtain ⟨f, last, v, hend, hproperties, hf, hmore⟩ :=
      ih _ q d.position (hquiet.lenient ht) (q.position_of_front he) hleft
    rw [hnext] at hproperties hmore
    refine ⟨f, last, v, (hback.trans hfront).endsAt hend, ?_, ?_, ?_⟩
    · rw [hproperties, propertiesAt, List.append_assoc]
      rfl
    · simpa [moreText, PropertyText.text] using hd.trans (he.trans hf)
    · exact hadds.trans ((Session.Adds.of_quiet hquiet).trans hmore)

end Rounds

/-! ### Objects -/

/-- A text that opens with a brace and white space is an object if what is left leads behind its
closing brace. -/
theorem parse_object (options : ReadOptions) (hrecover : options.onError = .recover) {blank : Char}
    (hblank : isBlank blank = true) {body : List Char} {problems : List Problem}
    (Holds : List (Property Value) → Prop)
    (hbody : ∀ ⦃n : Nat⦄ ⦃s : Session Unit⦄ ⦃c : Cursor⦄, s.Lenient → c.rest = body →
      c.position = byteLength ['{', blank] → ∃ e last t,
        EndsAt (propertyStep (n := n) valueRule) c {} s e last t ∧ Holds last.properties ∧
          c.Moves body e ∧ s.Adds problems t) :
    ∃ document properties, parse options (String.ofList ('{' :: blank :: body)) = .ok document ∧
      document.root = some (.object ⟨0, byteLength ('{' :: blank :: body)⟩ properties) ∧
      Holds properties ∧ document.problems = problems ∧ document.readAsString = false := by
  obtain ⟨s, hplain, hhalts, hparse⟩ := parse_of_readValue options ('{' :: blank :: body)
    (tokenMayStart_cons (by decide))
  have hs : s.Lenient := ⟨hplain.neutral, by rw [hhalts, hrecover]; rfl⟩
  have hhead : (Cursor.ofText ('{' :: blank :: body)).rest = '{' :: blank :: body := rfl
  have hlone : (blank :: body).head? ≠ some '{' := by
    intro hbrace
    obtain rfl : blank = '{' := by simpa using hbrace
    exact absurd hblank (by decide)
  have hnext := Cursor.moves_next hhead
  obtain ⟨c, hskip, hc, hrest⟩ := Blanks.leads ⟨[blank], by simpa using hblank⟩
    (propertyStep (n := (blank :: body).length + 1) valueRule) {} hs.neutral.going (hnext.rest_of hhead)
  have hposition : c.position = byteLength ['{', blank] := by
    rw [(hnext.trans hc).position_eq]
    exact Nat.zero_add _
  obtain ⟨e, last, t, hend, hproperties, he, hadds⟩ := hbody hs hrest hposition
  obtain ⟨d, hread, hd⟩ := readValue_of_properties hhead hlone (hskip.endsAt hend)
  obtain ⟨document, hok, hroot, -, -, hproblems, hstring⟩ :=
    hparse hread (hd.trans (he.rest_of (by rw [hrest, List.append_nil]))) (.inr ⟨hrecover, rfl⟩)
  have hstop : e.position = byteLength ('{' :: blank :: body) := by
    rw [((hnext.trans hc).trans he).position_eq]
    exact Nat.zero_add _
  rw [hstop] at hroot
  refine ⟨document, last.properties, hok, hroot, hproperties, hproblems.trans ?_, hstring⟩
  show (last.flush t).2.problems.toList = problems
  rw [(Session.Quiet.flush t last).problems_eq, hadds.problems_eq, hplain.none_met]
  rfl

/-- The properties of an object lead behind its closing brace. -/
theorem object_endAt {c : Cursor} {s : Session σ} (first : PropertyText) (more : List PropertyText)
    (final : Option Blanks) (hs : s.Lenient) (hc : c.rest = first.text ++ moreText final more) :
    ∃ e last t, EndsAt (propertyStep (n := n) valueRule) c {} s e last t ∧
      last.properties = propertiesAt final c.position first more ∧
      c.Moves (first.text ++ moreText final more) e ∧
      s.Adds (propertyProblemsAt c.position first more) t := by
  have hfirst : c.rest = first.front ++ ':' :: (first.back ++ (moreText final more ++ [])) := by
    simpa [PropertyText.text] using hc
  obtain ⟨d, t, hfront, hd, hquiet⟩ := first.leads_front (n := n) [] none hs hfirst
  have hadds := Session.Adds.of_quiet hquiet
  have hleft : d.rest = first.back ++ (moreText final more ++ []) := hd.rest_of (by simpa using hfirst)
  obtain ⟨e, last, u, hend, hproperties, he, hmore⟩ :=
    properties_endAt [] first more final c.position (hadds.lenient hs) (first.position_of_front hd)
      hleft
  refine ⟨e, last, u, hfront.endsAt hend, hproperties, ?_, hadds.trans hmore⟩
  simpa [PropertyText.text] using hd.trans he

/-- Under recovery an object with garbage in place of some of its values is read property by property.
Each garbage is reported once, at its first character, and leaves its property without a value; each
key and each value is the one that its text is alone, moved along. -/
theorem parse_properties_recovered (options : ReadOptions) (blank : { x : Char // isBlank x = true })
    (first : PropertyText) (more : List PropertyText) (final : Option Blanks) :
    ∃ document, parse { options with onError := .recover }
        (String.ofList ('{' :: blank :: (first.text ++ moreText final more))) = .ok document ∧
      document.root =
        some (.object ⟨0, byteLength ('{' :: blank :: (first.text ++ moreText final more))⟩
          (propertiesAt final (byteLength ['{', blank.1]) first more)) ∧
      document.problems = propertyProblemsAt (byteLength ['{', blank.1]) first more ∧
      document.readAsString = false := by
  obtain ⟨document, properties, hok, hroot, rfl, hrest⟩ :=
    parse_object { options with onError := .recover } rfl blank.2
      (· = propertiesAt final (byteLength ['{', blank.1]) first more) fun n s c hs hc hposition =>
        hposition ▸ object_endAt first more final hs hc
  exact ⟨document, hok, hroot, hrest⟩

/-- In `{ a: "{{", b: "}}" }` each value is a string when it is read alone; but the braces that the
first leaves open are closed in the second, and the object has one property. -/
theorem openBraces_take_next :
    (aloneValue? ['"', '{', '{', '"']).isSome = true ∧
    (aloneValue? ['"', '}', '}', '"']).isSome = true ∧
    ¬ ∃ document span first second, parse { onError := .recover } (String.ofList
        ['{', ' ', 'a', ':', ' ', '"', '{', '{', '"', ',', ' ', 'b', ':', ' ', '"', '}', '}', '"', ' ',
          '}']) = .ok document ∧
      document.root = some (.object span [first, second]) := by
  refine ⟨by decide +kernel, by decide +kernel, ?_⟩
  rintro ⟨document, span, first, second, hparse, hroot⟩
  have hcount : ((parse { onError := .recover } (String.ofList
      ['{', ' ', 'a', ':', ' ', '"', '{', '{', '"', ',', ' ', 'b', ':', ' ', '"', '}', '}', '"', ' ',
        '}'])).toOption.bind (·.root)).map (fun root => (Node.value root).children.length) =
      some 1 := by decide +kernel
  rw [hparse] at hcount
  simp [Except.toOption, hroot, Node.children] at hcount

end DataTemplate
