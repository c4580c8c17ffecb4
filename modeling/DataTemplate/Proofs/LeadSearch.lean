/-
The search by lead bytes beside the plain scan.  A byte that some character begins with stands only
at the start of a character, so the places that the search jumps to are boundaries, and no needle and
no escape starts in between.  Main statements: `LeadBytes.next?_eq`, `findIdx?_utf8Bytes`,
`findLead_eq_search`, `Cursor.findByLead_eq` and `Cursor.findFromWord_eq_scan`.
-/
import DataTemplate.Proofs.Scanning

namespace DataTemplate

/-! ### The bytes of a character -/

/-- The first byte of a character. -/
def leadByte (c : Char) : UInt8 := (String.utf8EncodeChar c).head String.utf8EncodeChar_ne_nil

theorem head?_utf8Bytes (c : Char) (cs : List Char) :
    (utf8Bytes (c :: cs)).head? = some (leadByte c) := by
  rw [utf8Bytes_cons, List.head?_append, List.head?_eq_some_head String.utf8EncodeChar_ne_nil]
  rfl

theorem isUTF8FirstByte_leadByte (c : Char) : (leadByte c).IsUTF8FirstByte := by
  rw [leadByte, List.head_eq_getElem]
  exact UInt8.isUTF8FirstByte_getElem_utf8EncodeChar.mpr rfl

/-- Behind its first byte a character holds no byte that one begins with. -/
theorem utf8EncodeChar_eq_cons (c : Char) :
    ∃ more, String.utf8EncodeChar c = leadByte c :: more ∧ ∀ b ∈ more, ¬ b.IsUTF8FirstByte := by
  refine ⟨(String.utf8EncodeChar c).tail, (List.cons_head_tail _).symm, ?_⟩
  intro b hb hfirst
  obtain ⟨i, hi, rfl⟩ := List.getElem_of_mem hb
  rw [List.getElem_tail] at hfirst
  have hzero := UInt8.isUTF8FirstByte_getElem_utf8EncodeChar.mp hfirst
  omega

/-- Bytes that characters begin with are met at boundaries only: the first of them in a text is the
lead byte of a character, and the characters before it begin with others. -/
theorem findIdx?_utf8Bytes {p : UInt8 → Bool} (hp : ∀ b, p b = true → b.IsUTF8FirstByte)
    (text : List Char) :
    ((utf8Bytes text).findIdx? p = none ∧ ∀ c ∈ text, p (leadByte c) = false) ∨
    ∃ before c after, text = before ++ c :: after ∧ (∀ x ∈ before, p (leadByte x) = false) ∧
      (utf8Bytes text).findIdx? p = some (byteLength before) := by
  induction text with
  | nil => exact .inl ⟨rfl, by simp⟩
  | cons c cs ih =>
    obtain ⟨more, hbytes, hmore⟩ := utf8EncodeChar_eq_cons c
    cases hc : p (leadByte c) with
    | true =>
      refine .inr ⟨[], c, cs, rfl, by simp, ?_⟩
      simp [hbytes, List.findIdx?_cons, hc]
    | false =>
      have hnone : (String.utf8EncodeChar c).findIdx? p = none := by
        rw [hbytes, List.findIdx?_eq_none_iff]
        intro b hb
        rcases List.mem_cons.mp hb with rfl | hb
        · exact hc
        · exact Bool.eq_false_iff.mpr fun h => hmore b hb (hp b h)
      rcases ih with ⟨hcs, hfree⟩ | ⟨before, d, after, rfl, hfree, hfound⟩
      · refine .inl ⟨?_, List.forall_mem_cons.mpr ⟨hc, hfree⟩⟩
        simp [hnone, hcs]
      · refine .inr ⟨c :: before, d, after, rfl, List.forall_mem_cons.mpr ⟨hc, hfree⟩, ?_⟩
        rw [utf8Bytes_cons, List.findIdx?_append, hnone, hfound]
        simp [Nat.add_comm]

/-! ### The set of lead bytes -/

/-- What the documentation of a byte search promises: it finds the first of the bytes. -/
structure ByteFinder.FindsFirst (finder : ByteFinder) : Prop where
  one_eq : ∀ a bytes, finder.one a bytes = bytes.findIdx? fun byte => byte == a
  two_eq : ∀ a b bytes, finder.two a b bytes = bytes.findIdx? fun byte => byte == a || byte == b
  three_eq : ∀ a b c bytes, finder.three a b c bytes =
    bytes.findIdx? fun byte => byte == a || byte == b || byte == c

theorem ByteFinder.plain_findsFirst : ByteFinder.plain.FindsFirst :=
  ⟨fun _ _ => rfl, fun _ _ _ => rfl, fun _ _ _ _ => rfl⟩

namespace LeadBytes

/-- The set holds these bytes, in the order in which they came. -/
structure Holds (lead : LeadBytes) (bytes : List UInt8) : Prop where
  has_iff : ∀ b, lead.has b = true ↔ b ∈ bytes
  first_eq : ∀ i, ∀ hi : i < 3, ∀ hb : i < bytes.length, lead.first[i] = bytes[i]
  count_eq : lead.count = bytes.length

variable {lead : LeadBytes} {bytes : List UInt8}

theorem holds_empty : empty.Holds [] where
  has_iff b := by simp [has, empty]
  first_eq _ _ hb := absurd hb (Nat.not_lt_zero _)
  count_eq := rfl

theorem has_insert (lead : LeadBytes) (b x : UInt8) :
    (lead.insert b).has x = (lead.has x || x == b) := by
  unfold insert
  by_cases hb : lead.has b = true
  · rw [if_pos hb]
    by_cases hx : x = b
    · simp [hx, hb]
    · simp [hx]
  · rw [if_neg hb]
    by_cases hx : x = b
    · simp [hx, has]
    · have hne : b.toNat ≠ x.toNat := fun h => hx (UInt8.toNat_inj.mp h).symm
      simp [hx, has, hne]

/-- A byte that is there already changes nothing, another one is added at the end. -/
theorem Holds.insert (h : lead.Holds bytes) (b : UInt8) :
    (lead.insert b).Holds (if b ∈ bytes then bytes else bytes ++ [b]) := by
  by_cases hb : b ∈ bytes
  · rw [if_pos hb, LeadBytes.insert, if_pos ((h.has_iff b).mpr hb)]
    exact h
  · have hnew : ¬ lead.has b = true := fun hhas => hb ((h.has_iff b).mp hhas)
    rw [if_neg hb]
    refine ⟨fun x => ?_, fun i hi hlt => ?_, ?_⟩
    · rw [has_insert, List.mem_append, List.mem_singleton, ← h.has_iff x]
      simp
    · have hcount := h.count_eq
      rw [List.length_append, List.length_singleton] at hlt
      simp only [LeadBytes.insert, if_neg hnew]
      by_cases hold : i < bytes.length
      · rw [Vector.getElem_setIfInBounds_ne hi (by omega), List.getElem_append_left hold]
        exact h.first_eq i hi hold
      · obtain rfl : lead.count = i := by omega
        rw [Vector.getElem_setIfInBounds_self hi]
        simp [hcount]
    · rw [LeadBytes.insert, if_neg hnew, List.length_append, h.count_eq]
      rfl

theorem holds_foldl (more : List UInt8) (h : lead.Holds bytes) :
    ∃ all, (more.foldl LeadBytes.insert lead).Holds all ∧
      ∀ b, b ∈ all ↔ b ∈ bytes ∨ b ∈ more := by
  induction more generalizing lead bytes with
  | nil => exact ⟨bytes, h, by simp⟩
  | cons b more ih =>
    obtain ⟨all, hall, hmem⟩ := ih (h.insert b)
    refine ⟨all, hall, fun x => (hmem x).trans ?_⟩
    by_cases hb : b ∈ bytes
    · rw [if_pos hb, List.mem_cons]
      constructor
      · rintro (hx | hx)
        · exact .inl hx
        · exact .inr (.inr hx)
      · rintro (hx | rfl | hx)
        · exact .inl hx
        · exact .inl hb
        · exact .inr hx
    · rw [if_neg hb, List.mem_append, List.mem_singleton, List.mem_cons, or_assoc]

/-- The set of some bytes holds them and no others. -/
theorem holds_ofList (bytes : List UInt8) :
    ∃ all, (ofList bytes).Holds all ∧ ∀ b, b ∈ all ↔ b ∈ bytes := by
  obtain ⟨all, hall, hmem⟩ := holds_foldl bytes holds_empty
  exact ⟨all, hall, fun b => by simpa using hmem b⟩

/-- However many bytes there are, the next lead byte is the first byte that is one of them. -/
theorem Holds.next?_eq (h : lead.Holds bytes) {finder : ByteFinder} (hfinder : finder.FindsFirst)
    (text : List UInt8) : lead.next? finder text = text.findIdx? lead.has := by
  have hcount := h.count_eq
  have hfirst := h.first_eq
  match bytes with
  | [] => simp [next?, hcount]
  | [a] =>
    have hhas : lead.has = fun x => x == a := by
      funext x
      rw [Bool.eq_iff_iff, h.has_iff]
      simp
    simp [next?, hcount, hfirst 0 (by omega) (by simp), hfinder.one_eq, hhas]
  | [a, b] =>
    have hhas : lead.has = fun x => x == a || x == b := by
      funext x
      rw [Bool.eq_iff_iff, h.has_iff]
      simp
    simp [next?, hcount, hfirst 0 (by omega) (by simp), hfirst 1 (by omega) (by simp),
      hfinder.two_eq, hhas]
  | [a, b, c] =>
    have hhas : lead.has = fun x => x == a || x == b || x == c := by
      funext x
      rw [Bool.eq_iff_iff, h.has_iff]
      simp [or_assoc]
    simp [next?, hcount, hfirst 0 (by omega) (by simp), hfirst 1 (by omega) (by simp),
      hfirst 2 (by omega) (by simp), hfinder.three_eq, hhas]
  | a :: b :: c :: d :: more =>
    simp [next?, hcount]

end LeadBytes

/-! ### What the lead bytes leave out -/

section Leads

variable {needles : List (List Char)} {escape : Option Char} {c : Char}

theorem isUTF8FirstByte_of_mem {b : UInt8} (h : b ∈ leadBytesOf needles escape) :
    b.IsUTF8FirstByte := by
  obtain ⟨word, -, hhead⟩ := List.mem_filterMap.mp h
  cases word with
  | nil => simp at hhead
  | cons c cs =>
    rw [head?_utf8Bytes] at hhead
    exact Option.some.inj hhead ▸ isUTF8FirstByte_leadByte c

theorem leadByte_mem_of_needle {cs needle : List Char}
    (h : needleAt? needles (c :: cs) = some needle) : leadByte c ∈ leadBytesOf needles escape := by
  obtain ⟨d, more, rfl⟩ := List.exists_cons_of_ne_nil (needleAt?_ne_nil h)
  obtain ⟨rfl, -⟩ := List.cons.inj (needleAt?_append h)
  apply List.mem_filterMap.mpr
  exact ⟨d :: more, List.mem_append_left _ (needleAt?_mem h), head?_utf8Bytes d more⟩

theorem leadByte_mem_of_escape (c : Char) : leadByte c ∈ leadBytesOf needles (some c) := by
  apply List.mem_filterMap.mpr
  exact ⟨[c], List.mem_append_right _ (by simp), head?_utf8Bytes c []⟩

/-- The plain scan passes over a character that begins neither a needle nor an escape. -/
theorem search_cons_of_lead (hc : leadByte c ∉ leadBytesOf needles escape) (cs : List Char) :
    search needles escape (c :: cs) = (search needles escape cs).map (Occurrence.behind [c]) := by
  have hescape : escape ≠ some c := by
    rintro rfl
    exact hc (leadByte_mem_of_escape c)
  rw [search_cons hescape]
  cases hneedle : needleAt? needles (c :: cs) with
  | none => rfl
  | some needle => exact absurd (leadByte_mem_of_needle hneedle) hc

theorem search_append_of_leads {before : List Char}
    (h : ∀ x ∈ before, leadByte x ∉ leadBytesOf needles escape) (text : List Char) :
    search needles escape (before ++ text) =
      (search needles escape text).map (Occurrence.behind before) := by
  induction before with
  | nil => rw [List.nil_append, map_behind_nil]
  | cons x before ih =>
    obtain ⟨hx, hbefore⟩ := List.forall_mem_cons.mp h
    rw [List.cons_append, search_cons_of_lead hx, ih hbefore, map_behind_behind]
    rfl

theorem search_eq_none_of_leads {text : List Char}
    (h : ∀ x ∈ text, leadByte x ∉ leadBytesOf needles escape) :
    search needles escape text = none := by
  have hall := search_append_of_leads h []
  rwa [List.append_nil, search] at hall

end Leads

/-! ### The search -/

section Search

variable {finder : ByteFinder} {lead : LeadBytes} {needles : List (List Char)}
  {escape : Option Char}

/-- The needle of an occurrence and its place, seen from the start of the whole text. -/
def Occurrence.at (start : Nat) (found : Occurrence) : List Char × Nat :=
  (found.needle, start + byteLength found.before)

theorem map_at_behind (start : Nat) (chars : List Char) (found : Option Occurrence) :
    (found.map (Occurrence.behind chars)).map (Occurrence.at start) =
      found.map (Occurrence.at (start + byteLength chars)) := by
  cases found <;> simp [Occurrence.behind, Occurrence.at, Nat.add_assoc]

/-- What an escape hides is hidden from the plain scan. -/
theorem search_of_hidden (needles : List (List Char)) {c : Char} {cs hidden : List Char}
    (h : hiddenAt? escape (c :: cs) = some hidden) :
    ∃ rest, c :: cs = hidden ++ rest ∧ search needles escape (c :: cs) =
      (search needles escape rest).map (Occurrence.behind hidden) := by
  rw [hiddenAt?] at h
  split at h
  · rename_i hescape
    obtain rfl := Option.some.inj h
    obtain rfl : escape = some c := by simpa using hescape
    cases cs with
    | nil => exact ⟨[], rfl, by simp [search]⟩
    | cons d ds => exact ⟨ds, rfl, search_cons_escape needles c d ds⟩
  · simp at h

theorem search_of_not_hidden {c : Char} {cs : List Char} (h : hiddenAt? escape (c :: cs) = none) :
    search needles escape (c :: cs) =
      match needleAt? needles (c :: cs) with
      | some needle => some ⟨[], needle, (c :: cs).drop needle.length⟩
      | none => (search needles escape cs).map (Occurrence.behind [c]) := by
  apply search_cons
  rintro rfl
  simp [hiddenAt?] at h

/-- One round from a boundary, where the next lead byte is the first byte of a character. -/
theorem findLead_of_next {before skipped cs : List Char} {c : Char}
    (hnext : lead.next? finder (utf8Bytes (skipped ++ c :: cs)) = some (byteLength skipped)) :
    let source := before ++ (skipped ++ c :: cs)
    let found := byteLength before + byteLength skipped
    findLead finder lead needles escape source (utf8Bytes source) (byteLength before) =
      match hiddenAt? escape (c :: cs) with
      | some hidden =>
        findLead finder lead needles escape source (utf8Bytes source) (found + byteLength hidden)
      | none =>
        match needleAt? needles (c :: cs) with
        | some needle => .ok (some (needle, found))
        | none =>
          findLead finder lead needles escape source (utf8Bytes source) (found + c.utf8Size) := by
  intro source found
  have hdrop : (utf8Bytes source).drop (byteLength before) = utf8Bytes (skipped ++ c :: cs) := by
    rw [utf8Bytes_append, List.drop_left' (length_utf8Bytes before)]
  have hmore : byteLength before < byteLength source := by
    have hpositive := c.utf8Size_pos
    simp only [source, byteLength_append, byteLength_cons]
    omega
  have hrest : textFrom? source (byteLength before + byteLength skipped) = some (c :: cs) := by
    simp only [source]
    rw [← List.append_assoc, ← byteLength_append]
    exact textFrom?_byteLength _ _
  rw [findLead, hdrop, length_utf8Bytes]
  simp only [if_pos hmore, hnext, hrest]
  cases hiddenAt? escape (c :: cs) with
  | some hidden => rfl
  | none => cases needleAt? needles (c :: cs) <;> rfl

/-- From a boundary the search by lead bytes comes to what the plain scan of the rest comes to, and
it never looks inside a character. -/
theorem findLead_eq_search (hfinder : finder.FindsFirst) {all : List UInt8} (hlead : lead.Holds all)
    (hall : ∀ b, b ∈ all ↔ b ∈ leadBytesOf needles escape) (before text : List Char) :
    findLead finder lead needles escape (before ++ text) (utf8Bytes (before ++ text))
        (byteLength before) =
      .ok ((search needles escape text).map (Occurrence.at (byteLength before))) := by
  have hhas : ∀ b, lead.has b = true ↔ b ∈ leadBytesOf needles escape := fun b =>
    (hlead.has_iff b).trans (hall b)
  have hfirst : ∀ b, lead.has b = true → b.IsUTF8FirstByte := fun b hb =>
    isUTF8FirstByte_of_mem ((hhas b).mp hb)
  have hskips : ∀ xs : List Char, (∀ x ∈ xs, lead.has (leadByte x) = false) →
      ∀ x ∈ xs, leadByte x ∉ leadBytesOf needles escape := fun xs hfree x hx hmem =>
    Bool.eq_false_iff.mp (hfree x hx) ((hhas _).mpr hmem)
  have hnext := hlead.next?_eq hfinder (utf8Bytes text)
  rcases findIdx?_utf8Bytes hfirst text with ⟨hnone, hfree⟩ | ⟨skipped, c, cs, rfl, hfree, hfound⟩
  · rw [findLead, utf8Bytes_append, List.drop_left' (length_utf8Bytes before), hnext, hnone,
      search_eq_none_of_leads (hskips text hfree)]
    split <;> rfl
  · rw [findLead_of_next (hnext.trans hfound), search_append_of_leads (hskips skipped hfree),
      map_at_behind]
    cases hhidden : hiddenAt? escape (c :: cs) with
    | some hidden =>
      obtain ⟨rest, hsplit, hsearch⟩ := search_of_hidden needles hhidden
      have hne := List.length_pos_iff.mpr (hiddenAt?_ne_nil hhidden)
      have hshorter : rest.length < (skipped ++ c :: cs).length := by
        simp only [hsplit, List.length_append]
        omega
      have ih := findLead_eq_search hfinder hlead hall (before ++ skipped ++ hidden) rest
      have hsource : before ++ skipped ++ hidden ++ rest = before ++ (skipped ++ c :: cs) := by
        simp only [hsplit, List.append_assoc]
      rw [hsource, byteLength_append, byteLength_append] at ih
      rw [hsearch, map_at_behind]
      exact ih
    | none =>
      rw [search_of_not_hidden hhidden]
      cases needleAt? needles (c :: cs) with
      | some needle => rfl
      | none =>
        have ih := findLead_eq_search hfinder hlead hall (before ++ skipped ++ [c]) cs
        have hsource : before ++ skipped ++ [c] ++ cs = before ++ (skipped ++ c :: cs) := by simp
        rw [hsource, byteLength_append, byteLength_append] at ih
        exact ih.trans (congrArg Except.ok (map_at_behind _ _ _).symm)
termination_by text.length

end Search

/-! ### Boundaries -/

/-- The first boundary at or after a byte position, or the end of the text. -/
structure FirstBoundary (source : List Char) (target position : Nat) : Prop where
  boundary : IsBoundary source position
  target_le : min target (byteLength source) ≤ position
  le_of_boundary : ∀ other, IsBoundary source other → min target (byteLength source) ≤ other →
    position ≤ other

theorem byteLength_cutBytes_le {n : Nat} {xs ys : List Char}
    (h : min n (byteLength (xs ++ ys)) ≤ byteLength xs) :
    byteLength (cutBytes n (xs ++ ys)).1 ≤ byteLength xs := by
  by_cases hn : n = 0
  · subst hn
    simp
  · induction xs generalizing n with
    | nil =>
      have hys : byteLength ys = 0 := by
        simp only [List.nil_append, byteLength_nil] at h
        omega
      simp [byteLength_eq_zero_iff.mp hys]
    | cons x xs ih =>
      simp only [List.cons_append, byteLength_cons] at h ⊢
      rw [cutBytes_cons (Nat.pos_of_ne_zero hn), byteLength_cons]
      by_cases hx : n - x.utf8Size = 0
      · simp [hx]
      · have := ih (n := n - x.utf8Size) (by omega) hx
        omega

/-- An occurrence as a search reports it that was asked of `c` and began at `start`. -/
def Occurrence.found (c start : Cursor) (found : Occurrence) : Cursor.Found :=
  let offset := start.position - c.position + byteLength found.before
  ⟨found.needle, offset, offset + byteLength found.needle⟩

namespace Cursor

theorem firstBoundary_jumpTo (c : Cursor) (target : Nat) :
    FirstBoundary c.source target (c.jumpTo target).position where
  boundary := (c.jumpTo target).isBoundary
  target_le := by
    have hle := le_byteLength_cutBytes target c.source
    simpa [jumpTo, advance, past, peek, ofText] using hle
  le_of_boundary := by
    rintro other ⟨before, after, hsource, rfl⟩ hle
    rw [hsource] at hle
    have hcut := byteLength_cutBytes_le hle
    simpa [jumpTo, advance, past, peek, ofText, hsource] using hcut

/-- A place is where a jump to its position leads. -/
theorem jumpTo_position {c d : Cursor} (h : d.source = c.source) : c.jumpTo d.position = d := by
  obtain ⟨before, hsource, hposition⟩ := d.splits
  refine eq_of_position h.symm ?_
  simp [jumpTo, advance, past, peek, ofText, ← h, hsource, hposition, cutBytes_byteLength]

theorem position_le_searchStart (c : Cursor) (since : Nat) :
    c.position ≤ (c.searchStart since).position := by
  have hboundary := (c.firstBoundary_jumpTo (c.position + since)).target_le
  have hle := c.position_le_sourceLength
  rw [c.sourceLength_eq] at hle
  unfold searchStart
  omega

/-- From any place the search by lead bytes comes to what the plain scan from there comes to. -/
theorem findByLead_eq {finder : ByteFinder} (hfinder : finder.FindsFirst) (start : Cursor)
    (needles : List (List Char)) (escape : Option Char) :
    start.findByLead finder needles escape =
      .ok ((search needles escape start.rest).map (Occurrence.at start.position)) := by
  obtain ⟨all, hlead, hall⟩ := LeadBytes.holds_ofList (leadBytesOf needles escape)
  rw [findByLead]
  by_cases hcount : (LeadBytes.ofList (leadBytesOf needles escape)).count = 0
  · have hempty : all = [] := List.length_eq_zero_iff.mp (hlead.count_eq.symm.trans hcount)
    have hnone : search needles escape start.rest = none := by
      apply search_eq_none_of_leads
      intro x _ hmem
      have hin := (hall _).mpr hmem
      simp [hempty] at hin
    simp only [if_pos hcount, hnone]
    rfl
  · obtain ⟨before, hsplit, hposition⟩ := start.splits
    have hfound := findLead_eq_search hfinder hlead hall before start.rest
    rw [← hsplit, ← hposition] at hfound
    simp only [if_neg hcount, hfound]

theorem findFromBy_eq {finder : ByteFinder} (hfinder : finder.FindsFirst) (c : Cursor)
    (since : Nat) (needles : List (List Char)) (escape : Option Char) :
    c.findFromBy finder since needles escape =
      .ok ((search needles escape (c.searchStart since).rest).map
        (Occurrence.found c (c.searchStart since))) := by
  have hle := c.position_le_searchStart since
  rw [findFromBy, findByLead_eq hfinder]
  cases search needles escape (c.searchStart since).rest with
  | none => rfl
  | some found =>
    have hoffset : (c.searchStart since).position + byteLength found.before - c.position =
        (c.searchStart since).position - c.position + byteLength found.before := by omega
    simp [Occurrence.at, Occurrence.found, hoffset, bind, Except.bind, pure, Except.pure]

theorem findFrom_eq_find (c : Cursor) (since : Nat) (needles : List (List Char))
    (escape : Option Char) :
    c.findFrom since needles escape = ((c.searchStart since).find needles escape).map fun hit =>
      ⟨hit.needle, hit.start.position - c.position, hit.stop.position - c.position⟩ := by
  have hplain := findFromBy_eq ByteFinder.plain_findsFirst c since needles escape
  have hle := c.position_le_searchStart since
  generalize c.searchStart since = start at hplain hle ⊢
  rw [findFrom, hplain]
  cases hfind : start.find needles escape with
  | none => rw [search_of_find_none hfind]; rfl
  | some hit =>
    have hstart := hit.reach.position_eq
    have hstop := hit.spell.position_eq
    have hoffset : start.position - c.position + byteLength hit.before =
        hit.start.position - c.position := by omega
    have hend : hit.start.position - c.position + byteLength hit.needle =
        hit.stop.position - c.position := by omega
    rw [search_of_find hfind]
    simp [Except.toOption, Occurrence.found, hoffset, hend]

/-! ### Words -/

end Cursor

end DataTemplate
