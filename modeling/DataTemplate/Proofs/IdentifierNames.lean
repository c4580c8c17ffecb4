/-
Bare keys against the names of ECMAScript.  A key may hold every alphabetic and numeric character, a
name those with the Unicode property ID_Continue, and the code of a tree copies bare keys as they
are.  Main statement: `readDocument_bareKeys`, which tells the keys that are no names by their
characters.
-/
import DataTemplate.Proofs.NameTables
import DataTemplate.Proofs.NumberLiterals

namespace DataTemplate

/-! ### Differences of tables -/

namespace CodePoint

/-- The ranges begin at a bound or later, and each one ends before the next one begins. -/
def ordered (bound : Nat) : List (Nat × Nat) → Bool
  | [] => true
  | (low, high) :: ranges => bound ≤ low && low ≤ high && ordered (high + 1) ranges

/-- The code points from `low` up to `stop`, in front of ranges that lie behind them. -/
def upTo (low stop : Nat) (ranges : List (Nat × Nat)) : List (Nat × Nat) :=
  if low < stop then (low, stop - 1) :: ranges else ranges

/-- What is left of some ranges without others. -/
def without : List (Nat × Nat) → List (Nat × Nat) → List (Nat × Nat)
  | [], _ => []
  | ranges, [] => ranges
  | (low, high) :: ranges, (first, last) :: others =>
    if high < first then (low, high) :: without ranges ((first, last) :: others)
    else if last < high then
      upTo low first (without ((max low (last + 1), high) :: ranges) others)
    else upTo low first (without ranges ((first, last) :: others))
termination_by ranges others => ranges.length + others.length

theorem ordered_cons {bound low high : Nat} {ranges : List (Nat × Nat)} :
    ordered bound ((low, high) :: ranges) = true ↔
      bound ≤ low ∧ low ≤ high ∧ ordered (high + 1) ranges = true := by
  simp [ordered, and_assoc]

theorem inRanges_cons {n low high : Nat} {ranges : List (Nat × Nat)} :
    inRanges n ((low, high) :: ranges) = true ↔
      low ≤ n ∧ (n ≤ high ∨ inRanges n ranges = true) := by
  simp [inRanges]

theorem bound_le_of_inRanges {n bound : Nat} {ranges : List (Nat × Nat)}
    (hordered : ordered bound ranges = true) (h : inRanges n ranges = true) : bound ≤ n := by
  cases ranges with
  | nil => cases h
  | cons range ranges =>
    have hbound := (ordered_cons.mp hordered).1
    have hlow := (inRanges_cons.mp h).1
    exact Nat.le_trans hbound hlow

theorem inRanges_upTo {n low stop : Nat} {ranges : List (Nat × Nat)}
    (h : inRanges n ranges = true → low ≤ n) :
    inRanges n (upTo low stop ranges) = true ↔
      (low ≤ n ∧ n < stop) ∨ inRanges n ranges = true := by
  unfold upTo
  split
  · rw [inRanges_cons]
    grind
  · grind

/-- The difference of two tables holds the code points of the first that are not in the second. -/
theorem inRanges_without {n j k : Nat} {ranges others : List (Nat × Nat)}
    (hranges : ordered j ranges = true) (hothers : ordered k others = true) :
    inRanges n (without ranges others) = true ↔
      inRanges n ranges = true ∧ ¬ inRanges n others = true := by
  fun_induction without ranges others generalizing j k with
  | case1 => simp [inRanges]
  | case2 => simp [inRanges]
  | case3 low high ranges first last others hbefore ih =>
    obtain ⟨-, hrange, hmore⟩ := ordered_cons.mp hranges
    have hbehind := bound_le_of_inRanges (n := n) hmore
    have hfirst : inRanges n ((first, last) :: others) = true → first ≤ n :=
      fun h => (inRanges_cons.mp h).1
    rw [inRanges_cons, inRanges_cons, ih hmore hothers]
    grind
  | case4 low high ranges first last others hreaches hpast ih =>
    obtain ⟨-, hrange, hmore⟩ := ordered_cons.mp hranges
    obtain ⟨-, hother, hrest⟩ := ordered_cons.mp hothers
    have hbehind := bound_le_of_inRanges (n := n) hmore
    have hlast := bound_le_of_inRanges (n := n) hrest
    have htrimmed : ordered 0 ((max low (last + 1), high) :: ranges) = true :=
      ordered_cons.mpr ⟨Nat.zero_le _, by omega, hmore⟩
    have hih := ih htrimmed hrest
    rw [inRanges_upTo (by grind [inRanges_cons]), hih, inRanges_cons, inRanges_cons, inRanges_cons]
    grind
  | case5 low high ranges first last others hreaches hpast ih =>
    obtain ⟨-, hrange, hmore⟩ := ordered_cons.mp hranges
    obtain ⟨-, hother, hrest⟩ := ordered_cons.mp hothers
    have hbehind := bound_le_of_inRanges (n := n) hmore
    have hlast := bound_le_of_inRanges (n := n) hrest
    have hih := ih hmore hothers
    rw [inRanges_upTo (by grind), hih, inRanges_cons, inRanges_cons]
    grind

/-! ### The tables -/

/-- The ranges of alphabetic code points without ID_Continue: circled, squared and parenthesized
letters, and the vertical tilde. -/
def strayLetters : List (Nat × Nat) := [
    (0x24B6, 0x24E9), (0x2E2F, 0x2E2F), (0x1F130, 0x1F149), (0x1F150, 0x1F169),
    (0x1F170, 0x1F189)]

/-- The ranges of numeric code points without ID_Continue: superscripts, fractions, circled numbers
and the like. -/
def strayNumbers : List (Nat × Nat) := [
    (0xB2, 0xB3), (0xB9, 0xB9), (0xBC, 0xBE), (0x9F4, 0x9F9), (0xB72, 0xB77), (0xBF0, 0xBF2),
    (0xC78, 0xC7E), (0xD58, 0xD5E), (0xD70, 0xD78), (0xF2A, 0xF33), (0x1372, 0x137C),
    (0x17F0, 0x17F9), (0x2070, 0x2070), (0x2074, 0x2079), (0x2080, 0x2089), (0x2150, 0x215F),
    (0x2189, 0x2189), (0x2460, 0x249B), (0x24EA, 0x24FF), (0x2776, 0x2793), (0x2CFD, 0x2CFD),
    (0x3192, 0x3195), (0x3220, 0x3229), (0x3248, 0x324F), (0x3251, 0x325F), (0x3280, 0x3289),
    (0x32B1, 0x32BF), (0xA830, 0xA835), (0x10107, 0x10133), (0x10175, 0x10178),
    (0x1018A, 0x1018B), (0x102E1, 0x102FB), (0x10320, 0x10323), (0x10858, 0x1085F),
    (0x10879, 0x1087F), (0x108A7, 0x108AF), (0x108FB, 0x108FF), (0x10916, 0x1091B),
    (0x109BC, 0x109BD), (0x109C0, 0x109CF), (0x109D2, 0x109FF), (0x10A40, 0x10A48),
    (0x10A7D, 0x10A7E), (0x10A9D, 0x10A9F), (0x10AEB, 0x10AEF), (0x10B58, 0x10B5F),
    (0x10B78, 0x10B7F), (0x10BA9, 0x10BAF), (0x10CFA, 0x10CFF), (0x10E60, 0x10E7E),
    (0x10F1D, 0x10F26), (0x10F51, 0x10F54), (0x10FC5, 0x10FCB), (0x11052, 0x11065),
    (0x111E1, 0x111F4), (0x1173A, 0x1173B), (0x118EA, 0x118F2), (0x11C5A, 0x11C6C),
    (0x11FC0, 0x11FD4), (0x16B5B, 0x16B61), (0x16E80, 0x16E96), (0x1D2C0, 0x1D2D3),
    (0x1D2E0, 0x1D2F3), (0x1D360, 0x1D378), (0x1E8C7, 0x1E8CF), (0x1EC71, 0x1ECAB),
    (0x1ECAD, 0x1ECAF), (0x1ECB1, 0x1ECB4), (0x1ED01, 0x1ED2D), (0x1ED2F, 0x1ED3D),
    (0x1F100, 0x1F10C)]

theorem ordered_alphabeticRanges : ordered 0 alphabeticRanges = true := by decide +kernel

theorem ordered_numericRanges : ordered 0 numericRanges = true := by decide +kernel

theorem ordered_idStartRanges : ordered 0 idStartRanges = true := by decide +kernel

theorem ordered_idContinueRanges : ordered 0 idContinueRanges = true := by decide +kernel

theorem strayLetters_eq : strayLetters = without alphabeticRanges idContinueRanges := by
  decide +kernel

theorem strayNumbers_eq : strayNumbers = without numericRanges idContinueRanges := by
  decide +kernel

theorem idStart_without_idContinue : without idStartRanges idContinueRanges = [] := by
  decide +kernel

end CodePoint

/-! ### Characters -/

section Classes

variable (c : Char)

/-- The Unicode property ID_Start. -/
def isIdStart : Bool := CodePoint.inRanges c.toNat CodePoint.idStartRanges

/-- The Unicode property ID_Continue. -/
def isIdContinue : Bool := CodePoint.inRanges c.toNat CodePoint.idContinueRanges

/-- The first character of a name of ECMAScript. -/
def isNameStart : Bool := c == '$' || c == '_' || isIdStart c

/-- A later character of a name of ECMAScript. -/
def isNamePart : Bool :=
  c == '$' || c == '_' || c == '\u200c' || c == '\u200d' || isIdContinue c

/-- A character of a name that does not begin one. -/
def onlyContinuesName : Bool := isNamePart c && !isNameStart c

/-- A character of keys that no name holds. -/
def isStray : Bool :=
  CodePoint.inRanges c.toNat CodePoint.strayLetters ||
    CodePoint.inRanges c.toNat CodePoint.strayNumbers

end Classes

variable {σ : Type} {c : Char}

theorem isNamePart_of_start (h : isNameStart c = true) : isNamePart c = true := by
  have hcontinue : isIdStart c = true → isIdContinue c = true := by
    intro hstart
    have hnone : ¬ CodePoint.inRanges c.toNat [] = true := Bool.false_ne_true
    rw [← CodePoint.idStart_without_idContinue, CodePoint.inRanges_without
      CodePoint.ordered_idStartRanges CodePoint.ordered_idContinueRanges] at hnone
    exact Classical.not_not.mp fun hnot => hnone ⟨hstart, hnot⟩
  simp only [isNameStart, isNamePart, Bool.or_eq_true] at h ⊢
  grind

/-- The stray characters are those that keys may hold and names may not. -/
theorem isStray_iff :
    isStray c = true ↔ isIdentifierContinue c = true ∧ isNamePart c = false := by
  have hdifference : isStray c = true ↔
      (isAlphabetic c = true ∨ isNumeric c = true) ∧ ¬ isIdContinue c = true := by
    rw [isStray, isAlphabetic, isNumeric, isIdContinue, CodePoint.strayLetters_eq,
      CodePoint.strayNumbers_eq, Bool.or_eq_true,
      CodePoint.inRanges_without CodePoint.ordered_alphabeticRanges
        CodePoint.ordered_idContinueRanges,
      CodePoint.inRanges_without CodePoint.ordered_numericRanges
        CodePoint.ordered_idContinueRanges, ← or_and_right]
  have hdollar : isAlphabetic '$' = false ∧ isNumeric '$' = false := by decide
  have hjoiners : isIdentifierContinue '\u200c' = false ∧
      isIdentifierContinue '\u200d' = false := by decide +kernel
  have hlow : isIdContinue '_' = true := by decide +kernel
  rw [hdifference]
  simp only [isIdentifierContinue, isIdentifierStart, isNamePart] at *
  grind

/-! ### Keys -/

/-- A text is a name of ECMAScript. -/
def IsName (text : List Char) : Prop :=
  ∃ first more, text = first :: more ∧ isNameStart first = true ∧ ∀ c ∈ more, isNamePart c = true

/-- A bare key is a name just if it begins with no mark and holds no stray character. -/
theorem IdentifierForm.isName_iff (form : IdentifierForm) :
    IsName form.text ↔
      onlyContinuesName form.first = false ∧ ∀ c ∈ form.text, isStray c = false := by
  have hpart {c : Char} (hc : c ∈ form.text) : isNamePart c = true ↔ isStray c = false := by
    have hkey : isIdentifierContinue c = true := by
      rcases List.mem_cons.mp hc with rfl | hmore
      · exact isIdentifierContinue_of_start form.hfirst
      · exact form.hmore c hmore
    have hstray := @isStray_iff c
    simp only [hkey, true_and] at hstray
    grind
  constructor
  · rintro ⟨first, more, htext, hstart, hmore⟩
    obtain ⟨rfl, rfl⟩ := List.cons.inj htext
    refine ⟨by simp [onlyContinuesName, hstart], fun c hc => (hpart hc).mp ?_⟩
    rcases List.mem_cons.mp hc with rfl | hc
    · exact isNamePart_of_start hstart
    · exact hmore c hc
  · rintro ⟨hfirst, hstrays⟩
    have hparts : ∀ c ∈ form.text, isNamePart c = true := fun c hc => (hpart hc).mpr (hstrays c hc)
    have hbegin : isNamePart form.first = true := hparts _ List.mem_cons_self
    have hstart : isNameStart form.first = true := by
      simpa [onlyContinuesName, hbegin] using hfirst
    exact ⟨_, _, rfl, hstart, fun c hc => hparts c (List.mem_cons_of_mem _ hc)⟩

/-- Bare keys in the code.  Whatever the text, the options and the host, the code of a tree holds
every bare key as it is written, and the key is a name of ECMAScript just if it does not begin with
a character that only continues names and holds no stray character. -/
theorem readDocument_bareKeys {options : ReadOptions} {hooks : Hooks σ} {state : σ}
    {source : List Char} {document : Document} {root : Value} {i : Identifier}
    (hdocument : (readDocument options hooks state source).1 = .ok document)
    (hroot : document.root = some root)
    (hreaches : (Node.value root).Reaches (.identifier i)) :
    (IsName i.raw.toList ↔
      (∀ first ∈ i.raw.toList.head?, onlyContinuesName first = false) ∧
        ∀ c ∈ i.raw.toList, isStray c = false) ∧
      ∀ layout : RenderOptions, i.raw.toList <:+: (root.render layout).toList := by
  have hmem : Node.identifier i ∈ root.nodes := hreaches.mem_preorder
  constructor
  · obtain ⟨form, hraw⟩ : (Node.identifier i).Spelled := readDocument_spelled hdocument hroot _ hmem
    rw [hraw, String.toList_ofList, form.isName_iff]
    simp [IdentifierForm.text]
  · intro layout
    have hcode : i.raw ∈ (Node.identifier i).codes layout.stringFunction :=
      List.mem_singleton_self i.raw
    obtain ⟨text, htext, hin⟩ := Value.exists_text hmem hcode 0
    exact hin.trans (Layout.infix_writeAll htext)

theorem Node.reaches_key (span : Span) {properties : List (Property Value)} {p : Property Value}
    (h : p ∈ properties) : (Node.value (.object span properties)).Reaches p.key.node :=
  .child (List.mem_map_of_mem h) (.child List.mem_cons_self (.refl _))

/-- A superscript two is read in a bare key, and stands in no name. -/
theorem readDocument_bareKeys_superscript :
    ∃ (document : Document) (root : Value) (i : Identifier),
      (readDocument { onError := .recover } ({} : Hooks Unit) () "\x7ba²:1\x7d".toList).1 =
        .ok document ∧
      document.root = some root ∧ (Node.value root).Reaches (.identifier i) ∧
      ((IsName i.raw.toList ↔
        (∀ first ∈ i.raw.toList.head?, onlyContinuesName first = false) ∧
          ∀ c ∈ i.raw.toList, isStray c = false) ∧
        ∀ layout : RenderOptions, i.raw.toList <:+: (root.render layout).toList) ∧
      ¬ IsName i.raw.toList := by
  let i : Identifier := ⟨⟨1, 4⟩, "a²"⟩
  let p : Property Value := ⟨.identifier i, some 4,
    some (.scalar ⟨⟨5, 6⟩, "1", .number (.finite false 4503599627370496 (-52))⟩), none⟩
  have hdocument : ∃ document,
      (readDocument { onError := .recover } ({} : Hooks Unit) () "\x7ba²:1\x7d".toList).1 =
        .ok document ∧ document.root = some (.object ⟨0, 7⟩ [p]) :=
    ⟨_, rfl, by with_unfolding_all rfl⟩
  obtain ⟨document, hdocument, hroot⟩ := hdocument
  have hreaches : (Node.value (.object ⟨0, 7⟩ [p])).Reaches (.identifier i) :=
    Node.reaches_key _ (List.mem_singleton_self p)
  have hkey := readDocument_bareKeys hdocument hroot hreaches
  refine ⟨document, _, i, hdocument, hroot, hreaches, hkey, fun hname => ?_⟩
  have hstray := (hkey.1.mp hname).2 '²' (by decide)
  exact absurd hstray (by decide)

end DataTemplate
