/-
Places by byte positions beside places that carry their text.  The byte behind a position tells whether
it stands between two characters, and an operation that starts at such a position never cuts the text
badly and does what the operation on the other kind of place does.  Main statements:
`isCharBoundary_iff`, `firstBoundary_boundaryAt`, `Cursor.bytes_matchBalanced` and
`Cursor.bytes_matchQuoted`.
-/
import DataTemplate.Text.ByteCursor
import DataTemplate.Proofs.BracketRuns
import DataTemplate.Proofs.Fidelity
import DataTemplate.Proofs.LeadSearch
import DataTemplate.Proofs.Recovery

namespace DataTemplate

/-! ### Boundaries by their bytes -/

theorem isFirstByte_of_isUTF8FirstByte {byte : UInt8} (h : byte.IsUTF8FirstByte) :
    isFirstByte byte = true := by
  have hall : ∀ n < 256, (UInt8.ofNat n).IsUTF8FirstByte → isFirstByte (UInt8.ofNat n) = true := by
    decide +kernel
  have hbyte := hall byte.toNat byte.toNat_lt
  rw [UInt8.ofNat_toNat] at hbyte
  exact hbyte h

theorem isFirstByte_rest (n : Nat) : isFirstByte (UInt8.ofNat (n % 0x40) + 0x80) = false := by
  have hall : ∀ m < 0x40, isFirstByte (UInt8.ofNat m + 0x80) = false := by decide +kernel
  exact hall (n % 0x40) (Nat.mod_lt n (by decide))

/-- Behind its first byte a character holds no byte that may begin one. -/
theorem isFirstByte_tail (c : Char) :
    ∀ byte ∈ (String.utf8EncodeChar c).tail, isFirstByte byte = false := by
  simp only [String.utf8EncodeChar]
  split
  · simp
  · split
    · simp [isFirstByte_rest]
    · split <;> simp [isFirstByte_rest]

theorem isCharBoundary_zero (source : List Char) : isCharBoundary source 0 = true := by
  cases source with
  | nil => rfl
  | cons c cs =>
    have hfirst := isFirstByte_of_isUTF8FirstByte (isUTF8FirstByte_leadByte c)
    rw [isCharBoundary, ← List.head?_eq_getElem?, head?_utf8Bytes, Option.any_some, hfirst,
      Bool.or_true]

theorem isCharBoundary_inside {c : Char} {position : Nat} (hpositive : 0 < position)
    (hlt : position < c.utf8Size) (cs : List Char) :
    isCharBoundary (c :: cs) position = false := by
  obtain ⟨i, rfl⟩ := Nat.exists_eq_add_of_lt hpositive
  have hlength := String.length_utf8EncodeChar c
  have hi : i + 1 < (String.utf8EncodeChar c).length := by omega
  have htail : i < (String.utf8EncodeChar c).tail.length := by
    rw [List.length_tail]
    omega
  have hbyte := isFirstByte_tail c _ (List.getElem_mem htail)
  rw [List.getElem_tail] at hbyte
  have hend : i + 1 ≠ byteLength (c :: cs) := by
    rw [byteLength_cons]
    omega
  rw [isCharBoundary, utf8Bytes_cons, Nat.zero_add, List.getElem?_append_left hi,
    List.getElem?_eq_getElem hi, Option.any_some, hbyte, Bool.or_false]
  exact beq_false_of_ne hend

theorem isCharBoundary_add (c : Char) (cs : List Char) (n : Nat) :
    isCharBoundary (c :: cs) (c.utf8Size + n) = isCharBoundary cs n := by
  have hpast : (String.utf8EncodeChar c ++ utf8Bytes cs)[c.utf8Size + n]? = (utf8Bytes cs)[n]? := by
    rw [← String.length_utf8EncodeChar, List.getElem?_append_right (Nat.le_add_right _ _),
      Nat.add_sub_cancel_left]
  have hend : (c.utf8Size + n == byteLength (c :: cs)) = (n == byteLength cs) := by
    rw [Bool.eq_iff_iff]
    simp
  rw [isCharBoundary, utf8Bytes_cons, hpast, hend, isCharBoundary]

theorem isBoundary_cons (c : Char) (cs : List Char) (position : Nat) :
    IsBoundary (c :: cs) position ↔
      position = 0 ∨ ∃ n, IsBoundary cs n ∧ position = c.utf8Size + n := by
  constructor
  · rintro ⟨before, after, hsplit, rfl⟩
    cases before with
    | nil => exact .inl rfl
    | cons d before =>
      obtain ⟨rfl, rfl⟩ := List.cons.inj hsplit
      exact .inr ⟨byteLength before, ⟨before, after, rfl, rfl⟩, rfl⟩
  · rintro (rfl | ⟨n, ⟨before, after, rfl, rfl⟩, rfl⟩)
    · exact ⟨[], c :: cs, rfl, rfl⟩
    · exact ⟨c :: before, after, rfl, rfl⟩

/-- The byte behind a position tells whether it stands between two characters. -/
theorem isCharBoundary_iff {source : List Char} {position : Nat} :
    isCharBoundary source position = true ↔ IsBoundary source position := by
  induction source generalizing position with
  | nil =>
    have hsplit : IsBoundary [] position ↔ position = 0 := by
      constructor
      · rintro ⟨before, after, hnil, rfl⟩
        rw [(List.append_eq_nil_iff.mp hnil.symm).1, byteLength_nil]
      · rintro rfl
        exact ⟨[], [], rfl, rfl⟩
    simp [hsplit, isCharBoundary]
  | cons c cs ih =>
    rw [isBoundary_cons]
    rcases Nat.lt_or_ge position c.utf8Size with hlt | hge
    · have hbehind : ¬ ∃ n, IsBoundary cs n ∧ position = c.utf8Size + n := by
        rintro ⟨n, -, rfl⟩
        omega
      rcases Nat.eq_zero_or_pos position with rfl | hpositive
      · simp [isCharBoundary_zero]
      · simp [isCharBoundary_inside hpositive hlt, Nat.ne_of_gt hpositive, hbehind]
    · obtain ⟨n, rfl⟩ := Nat.exists_eq_add_of_le hge
      have hpositive := c.utf8Size_pos
      have hzero : c.utf8Size + n ≠ 0 := by omega
      rw [isCharBoundary_add, ih]
      constructor
      · exact fun h => .inr ⟨n, h, rfl⟩
      · rintro (h | ⟨m, h, heq⟩)
        · exact absurd h hzero
        · rwa [Nat.add_left_cancel heq]

theorem FirstBoundary.unique {source : List Char} {target position other : Nat}
    (h : FirstBoundary source target position) (h' : FirstBoundary source target other) :
    position = other :=
  Nat.le_antisymm (h.le_of_boundary other h'.boundary h'.target_le)
    (h'.le_of_boundary position h.boundary h.target_le)

theorem firstBoundary_widenFrom (source : List Char) {target position : Nat}
    (h : position ≤ byteLength source) (htarget : min target (byteLength source) ≤ position)
    (hfree : ∀ other, IsBoundary source other → min target (byteLength source) ≤ other →
      position ≤ other) : FirstBoundary source target (widenFrom source position h) := by
  -- no boundary stands between the target and the position that the loop has come to
  fun_induction widenFrom source position h with
  | case1 position h hboundary => exact ⟨isCharBoundary_iff.mp hboundary, htarget, hfree⟩
  | case2 position h hinside hlt ih =>
    apply ih (Nat.le_succ_of_le htarget)
    intro other hother hle
    have hne : position ≠ other := by
      rintro rfl
      exact hinside (isCharBoundary_iff.mpr hother)
    have := hfree other hother hle
    omega

/-- A position that is widened byte by byte comes to the first boundary. -/
theorem firstBoundary_boundaryAt (source : List Char) (target : Nat) :
    FirstBoundary source target (boundaryAt source target) :=
  firstBoundary_widenFrom source _ (Nat.le_refl _) fun _ _ hle => hle

theorem boundaryAt_eq (c : Cursor) (target : Nat) :
    boundaryAt c.source target = (c.jumpTo target).position :=
  (firstBoundary_boundaryAt c.source target).unique (c.firstBoundary_jumpTo target)

/-! ### Cuts at places -/

theorem sliceText_append (before text after : List Char) :
    sliceText (before ++ (text ++ after)) (byteLength before) (byteLength before + byteLength text) =
      .ok text := by
  have hstart := textFrom?_byteLength before (text ++ after)
  have hstop := textFrom?_byteLength (before ++ text) after
  rw [List.append_assoc, byteLength_append] at hstop
  rw [sliceText, hstart, hstop]
  simp only [Nat.le_add_right, if_true, Nat.add_sub_cancel_left, cutBytes_byteLength]

/-- Between two places of a text the cut gives what stands between them. -/
theorem sliceText_eq {c d : Cursor} {text : List Char} (h : c.Moves text d) :
    sliceText c.source c.position d.position = .ok text := by
  obtain ⟨before, hsource, hposition⟩ := c.splits
  rw [hsource, h.rest_eq, h.position_eq, hposition]
  exact sliceText_append before text d.rest

/-- A cut behind some text goes on in what comes after it. -/
theorem cutBytes_add (xs ys : List Char) (n : Nat) :
    cutBytes (byteLength xs + n) (xs ++ ys) = (xs ++ (cutBytes n ys).1, (cutBytes n ys).2) := by
  induction xs with
  | nil => simp
  | cons x xs ih =>
    have hpositive := x.utf8Size_pos
    rw [List.cons_append, cutBytes_cons (by simp; omega), byteLength_cons, Nat.add_assoc,
      Nat.add_sub_cancel_left, ih]
    rfl

theorem Cursor.jumpTo_add (c : Cursor) (n : Nat) : c.jumpTo (c.position + n) = c.advance n := by
  obtain ⟨before, hsource, hposition⟩ := c.splits
  refine Cursor.eq_of_position rfl ?_
  simp [jumpTo, advance, past, peek, ofText, hsource, hposition, cutBytes_add]

/-- The first character outside a class stands behind the longest run of the class. -/
theorem findChar?_getD (p : Char → Bool) (text : List Char) :
    (findChar? (fun c => !p c) text).getD (byteLength text) = byteLength (text.takeWhile p) := by
  induction text with
  | nil => rfl
  | cons c cs ih =>
    cases hc : p c with
    | true => simp [findChar?, hc, ← ih, Option.getD_map]
    | false => simp [findChar?, hc]

/-- The search for the position behind the closing bracket ends where the run does. -/
theorem closeEnd?_charIndices (pairs : List (Char × Char)) (escapes expected text : List Char)
    (position : Nat) :
    closeEnd? pairs escapes expected (charIndices position text) =
      (closeRun pairs escapes expected text).map fun cut => position + byteLength cut.1 := by
  fun_induction closeRun pairs escapes expected text generalizing position
  case case1 => rfl
  -- one character: both sides look at it in the same way
  all_goals rw [charIndices, closeEnd?.eq_def]
  case case2 expected c hescape => simp_all [charIndices]
  case case3 expected c hescape d ds ih =>
    simp_all [charIndices, behindCut, Function.comp_def, Nat.add_assoc]
  case case4 expected c cs hescape closer hopener ih =>
    simp_all [behindCut, Function.comp_def, Nat.add_assoc]
  case case5 c cs hescape hopener hcloser => simp_all
  case case6 cs c outer hlast hescape hopener hcloser => simp_all
  case case7 cs c outer hmore hescape hopener hcloser ih =>
    simp_all [behindCut, Function.comp_def, Nat.add_assoc]
  case case8 c cs hescape hopener hcloser closer outer hother => simp_all
  case case9 expected c cs hescape hopener hcloser ih =>
    simp_all [behindCut, Function.comp_def, Nat.add_assoc]

theorem balancedEnd?_eq (pairs : List (Char × Char)) (escapes text : List Char) :
    balancedEnd? pairs escapes text =
      (balancedRun pairs escapes text).map fun cut => byteLength cut.1 := by
  cases text with
  | nil => rfl
  | cons c cs =>
    rw [balancedEnd?, charIndices, balancedRun]
    cases hcloser : closerOf? pairs c with
    | none => simp [hcloser]
    | some closer => simp [hcloser, closeEnd?_charIndices, behindCut, Function.comp_def]

/-! ### Operations -/

namespace Cursor

/-- A place without its text. -/
def bytes (c : Cursor) : ByteCursor := ⟨c.source, c.position⟩

theorem bytes_remaining (c : Cursor) : c.bytes.remaining = .ok c.rest := by
  have hend : byteLength c.source = c.toEnd.position := c.sourceLength_eq.symm
  rw [ByteCursor.remaining, bytes, hend]
  exact sliceText_eq c.moves_toEnd

theorem bytes_remainingLength (c : Cursor) : c.bytes.remainingLength = byteLength c.rest := by
  have hlength := c.sourceLength_eq
  rw [sourceLength] at hlength
  rw [ByteCursor.remainingLength, bytes, ← hlength, Nat.add_sub_cancel_left]

theorem bytes_peek (c : Cursor) (n : Nat) : c.bytes.peek n = .ok (c.peek n) := by
  rw [ByteCursor.peek, bytes, boundaryAt_eq, jumpTo_add]
  exact sliceText_eq (c.moves_advance n)

theorem bytes_advance (c : Cursor) (n : Nat) :
    c.bytes.advance n = .ok (c.peek n, (c.advance n).bytes) := by
  have hcut := sliceText_eq (c.moves_advance n)
  rw [← jumpTo_add, ← boundaryAt_eq] at hcut
  rw [ByteCursor.advance, bytes, hcut, bytes, ← jumpTo_add, ← boundaryAt_eq]
  rfl

/-- Over a text that starts here the move goes to its end. -/
theorem bytes_advance_of_moves {c d : Cursor} {text : List Char} (h : c.Moves text d) :
    c.bytes.advance (byteLength text) = .ok (text, d.bytes) := by
  have hpeek : c.peek (byteLength text) = text := by rw [peek, h.rest_eq, cutBytes_byteLength]
  have hd : c.advance (byteLength text) = d :=
    (hpeek ▸ c.moves_advance (byteLength text)).unique h
  rw [bytes_advance, hpeek, hd]

theorem bytes_jumpTo (c : Cursor) (position : Nat) :
    c.bytes.jumpTo position = (c.jumpTo position).bytes := by
  rw [ByteCursor.jumpTo, bytes, boundaryAt_eq]
  rfl

theorem bytes_skipBlanks (c : Cursor) :
    c.bytes.skipBlanks = .ok (byteLength (c.runOf isBlank), c.skipBlanks.bytes) := by
  have hskipped := findChar?_getD isBlank c.rest
  have hmoves := c.moves_matchWhile isBlank
  rw [ByteCursor.skipBlanks, bytes_remaining, bytes_remainingLength]
  simp only [bind, Except.bind, pure, Except.pure, hskipped, skipBlanks, bytes,
    hmoves.position_eq, hmoves.source_eq]
  rfl

theorem matchLiteral_some {c d : Cursor} {text : List Char} (h : c.matchLiteral text = some d) :
    c.Moves text d := by
  unfold matchLiteral at h
  split at h
  · obtain rfl := Option.some.inj h
    exact c.moves_past _
  · simp at h

theorem matchLiteral_none {c : Cursor} {text : List Char} (h : c.matchLiteral text = none) :
    ¬ text <+: c.rest := by
  unfold matchLiteral at h
  split at h
  · simp at h
  · assumption

theorem bytes_matchLiteral (c : Cursor) (text : List Char) :
    c.bytes.matchLiteral text =
      .ok ((c.matchLiteral text).isSome, ((c.matchLiteral text).getD c).bytes) := by
  rw [ByteCursor.matchLiteral, bytes_remaining, matchLiteral]
  simp only [bind, Except.bind, List.isPrefixOf_iff_prefix]
  by_cases h : text <+: c.rest
  · rw [if_pos h, dif_pos h]
    rfl
  · rw [if_neg h, dif_neg h]
    rfl

theorem bytes_matchWhile (c : Cursor) (p : Char → Bool) :
    c.bytes.matchWhile p = .ok (c.runOf p, (c.matchWhile p).bytes) := by
  have hlength := findChar?_getD p c.rest
  rw [ByteCursor.matchWhile, bytes_remaining, bytes_remainingLength]
  simp only [bind, Except.bind, hlength]
  exact bytes_advance_of_moves (c.moves_matchWhile p)

theorem takeBalanced_moves (c : Cursor) (pairs : List (Char × Char)) (escapes : List Char) :
    c.takeBalanced pairs escapes = (none, c) ∨
      ∃ run d, c.takeBalanced pairs escapes = (some run, d) ∧ c.Moves run d := by
  rw [takeBalanced]
  cases hrun : balancedRun pairs escapes c.rest with
  | none => exact .inl (by rw [matchBalanced_of_none hrun])
  | some found =>
    obtain ⟨d, hmatch, hmoves⟩ := matchBalanced_of_some hrun
    exact .inr ⟨found.1, d.1, by rw [hmatch], hmoves⟩

theorem bytes_matchBalanced (c : Cursor) (pairs : List (Char × Char)) (escapes : List Char) :
    c.bytes.matchBalanced pairs escapes =
      .ok ((c.takeBalanced pairs escapes).1, (c.takeBalanced pairs escapes).2.bytes) := by
  rw [ByteCursor.matchBalanced, bytes_remaining, takeBalanced]
  simp only [bind, Except.bind, balancedEnd?_eq]
  cases hrun : balancedRun pairs escapes c.rest with
  | none =>
    rw [matchBalanced_of_none hrun]
    rfl
  | some found =>
    obtain ⟨d, hmatch, hmoves⟩ := matchBalanced_of_some hrun
    rw [hmatch]
    simp only [Option.map_some, bytes_advance_of_moves hmoves]
    rfl

theorem bytes_findFrom_eq (finder : ByteFinder) (c : Cursor) (since : Nat)
    (needles : List (List Char)) (escape : Option Char) :
    c.bytes.findFrom finder since needles escape =
      (c.findFromBy finder since needles escape).mapError fun fault =>
        ⟨fault.position, byteLength c.source⟩ := by
  have hstart : boundaryAt c.source (c.position + since) = (c.searchStart since).position :=
    boundaryAt_eq c (c.position + since)
  have hsource : (c.searchStart since).source = c.source := rfl
  rw [ByteCursor.findFrom, bytes, hstart, findFromBy, findByLead, hsource]
  dsimp only
  split
  · rfl
  · cases findLead finder (LeadBytes.ofList (leadBytesOf needles escape)) needles escape c.source
      (utf8Bytes c.source) (c.searchStart since).position with
    | error fault => rfl
    | ok found => cases found <;> rfl

/-- The search never looks inside a character, and comes to what it comes to from the place itself. -/
theorem bytes_findFrom {finder : ByteFinder} (hfinder : finder.FindsFirst) (c : Cursor)
    (since : Nat) (needles : List (List Char)) (escape : Option Char) :
    c.bytes.findFrom finder since needles escape = .ok (c.findFrom since needles escape) := by
  rw [bytes_findFrom_eq, findFrom, findFromBy_eq hfinder,
    findFromBy_eq ByteFinder.plain_findsFirst]
  rfl

/-- Behind the quote the search for its end starts with the content. -/
theorem searchStart_one {c inner : Cursor} {quote : Quote} (h : c.Moves [quote.char] inner) :
    c.searchStart 1 = inner := by
  have hplace : inner.position = c.position + 1 := h.position_succ quote.utf8Size_char
  rw [searchStart, ← hplace, jumpTo_position h.source_eq]

/-- The quoted literal here is met in bare positions as it is in the text. -/
theorem bytes_matchQuoted {finder : ByteFinder} (hfinder : finder.FindsFirst) (c : Cursor)
    (raw : Bool) : c.bytes.matchQuoted finder raw =
      .ok (match c.matchQuoted with
        | .error fault => (.error fault, c.bytes)
        | .ok none => (.ok none, c.bytes)
        | .ok (some (text, d)) => (.ok (some (if raw then text else unescape text)), d.1.bytes)) := by
  rw [ByteCursor.matchQuoted, bytes_remaining]
  simp only [bind, Except.bind, bytes_findFrom hfinder]
  cases hquote : c.rest.head?.bind Quote.ofChar? with
  | none =>
    rw [matchQuoted_of_no_quote hquote]
    rfl
  | some quote =>
    obtain ⟨inner, hinner, hcases⟩ := matchQuoted_of_quote hquote
    have hfound : c.findFrom 1 [[quote.char]] (some '\\') =
        (inner.find [[quote.char]] (some '\\')).map fun hit =>
          ⟨hit.needle, hit.start.position - c.position, hit.stop.position - c.position⟩ := by
      rw [findFrom_eq_find, searchStart_one hinner]
    rcases hcases with ⟨hfind, hmatch⟩ | ⟨hit, d, hfind, hd, hmatch⟩
    · rw [hfind] at hfound
      simp only [hfound, hmatch, Option.map_none, sourceLength_eq]
      rfl
    · rw [hfind] at hfound
      have hbody := hinner.trans hit.reach
      have hwhole := hbody.trans hit.spell
      have hstart : hit.start.position - c.position = 1 + byteLength hit.before := by
        rw [hbody.position_eq, byteLength_append, quote.byteLength_char, Nat.add_sub_cancel_left]
      have hstop := Nat.sub_eq_of_eq_add' hwhole.position_eq
      have hcontent : sliceText c.rest 1 (1 + byteLength hit.before) = .ok hit.before := by
        have hcut := sliceText_append [quote.char] hit.before hit.start.rest
        rwa [quote.byteLength_char, ← List.append_assoc, ← hbody.rest_eq] at hcut
      rw [← hd] at hwhole
      simp only [hfound, hmatch, Option.map_some, hstart, hstop, hcontent,
        bytes_advance_of_moves hwhole]
      rfl

end Cursor

end DataTemplate
