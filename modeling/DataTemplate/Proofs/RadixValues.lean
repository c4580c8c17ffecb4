/-
Values of literals in a radix.  Each digit is rounded in as it comes.  Up to 53 bits nothing is lost;
the digit with which the number passes 53 bits decides how it is rounded, and no later digit changes
that.  So the value is the number that the digits denote, rounded once, unless the digits are halfway
at that point and the later ones, which should have counted, are lost.  Main statement:
`Numeral.radix_rounded`.
-/
import DataTemplate.Proofs.Literals
import DataTemplate.Proofs.Rounding

namespace DataTemplate

variable {radix : Radix} {digits front back : List Char}

/-! ### The number that digits denote -/

namespace Radix

/-- The number of bits of a digit. -/
def width : Radix → Nat
  | binary => 1
  | octal => 3
  | hexadecimal => 4

/-- The natural number that digits denote behind ones that denote `value`. -/
def denotedFrom (radix : Radix) (value : Nat) (digits : List Char) : Nat :=
  digits.foldl (fun value digit => value * radix.base + hexDigitValue digit) value

/-- The natural number that digits denote. -/
def denoted (radix : Radix) (digits : List Char) : Nat := radix.denotedFrom 0 digits

/-- The value of digits behind ones of the given value, rounded after each digit. -/
def roundedFrom (radix : Radix) (value : Nat) (digits : List Char) : Nat :=
  digits.foldl (fun value digit => roundSignificant (value * radix.base + hexDigitValue digit))
    value

theorem base_eq (radix : Radix) : radix.base = 2 ^ radix.width := by
  cases radix <;> rfl

theorem digit_lt {c : Char} (h : radix.isDigit c = true) : hexDigitValue c < 2 ^ radix.width := by
  rw [← base_eq]
  simpa [isDigit] using (Bool.and_eq_true_iff.mp h).2

theorem denotedFrom_append (value : Nat) (front back : List Char) :
    radix.denotedFrom value (front ++ back) =
      radix.denotedFrom (radix.denotedFrom value front) back :=
  List.foldl_append

theorem denotedFrom_eq (value : Nat) (digits : List Char) :
    radix.denotedFrom value digits =
      value * 2 ^ (radix.width * digits.length) + radix.denoted digits := by
  induction digits generalizing value with
  | nil => simp [denotedFrom, denoted]
  | cons digit digits ih =>
    have hfirst (value : Nat) : radix.denotedFrom value (digit :: digits) =
        radix.denotedFrom (value * 2 ^ radix.width + hexDigitValue digit) digits := by
      rw [← base_eq]
      rfl
    rw [denoted, hfirst value, hfirst 0, ih, ih (0 * 2 ^ radix.width + _), List.length_cons,
      Nat.mul_succ, Nat.pow_add]
    ring

theorem denoted_append (front back : List Char) :
    radix.denoted (front ++ back) =
      radix.denoted front * 2 ^ (radix.width * back.length) + radix.denoted back := by
  rw [denoted, denotedFrom_append, denotedFrom_eq]
  rfl

theorem denoted_lt (h : ∀ c ∈ digits, radix.isDigit c = true) :
    radix.denoted digits < 2 ^ (radix.width * digits.length) := by
  induction digits with
  | nil => simp [denoted, denotedFrom]
  | cons digit digits ih =>
    obtain ⟨hdigit, hmore⟩ := List.forall_mem_cons.mp h
    have hfirst : radix.denoted [digit] = hexDigitValue digit := by
      simp [denoted, denotedFrom]
    rw [← List.singleton_append, denoted_append, hfirst]
    calc hexDigitValue digit * 2 ^ (radix.width * digits.length) + radix.denoted digits
      _ < (hexDigitValue digit + 1) * 2 ^ (radix.width * digits.length) := by
        rw [Nat.succ_mul]
        exact Nat.add_lt_add_left (ih hmore) _
      _ ≤ 2 ^ radix.width * 2 ^ (radix.width * digits.length) :=
        Nat.mul_le_mul_right _ (digit_lt hdigit)
      _ = 2 ^ (radix.width * ([digit] ++ digits).length) := by
        rw [← Nat.pow_add, List.singleton_append, List.length_cons, Nat.mul_succ, Nat.add_comm]

/-! ### Rounding after each digit -/

theorem roundedFrom_append (value : Nat) (front back : List Char) :
    radix.roundedFrom value (front ++ back) =
      radix.roundedFrom (radix.roundedFrom value front) back :=
  List.foldl_append

theorem roundedFrom_cons (value : Nat) (digit : Char) (digits : List Char) :
    radix.roundedFrom value (digit :: digits) =
      radix.roundedFrom (roundSignificant (value * 2 ^ radix.width + hexDigitValue digit)) digits := by
  rw [← base_eq]
  rfl

/-- Up to 53 bits nothing is rounded. -/
theorem roundedFrom_of_lt {value : Nat} (h : radix.denotedFrom value digits < 2 ^ 53) :
    radix.roundedFrom value digits = radix.denotedFrom value digits := by
  induction digits generalizing value with
  | nil => rfl
  | cons digit digits ih =>
    have hcons : radix.denotedFrom value (digit :: digits) =
        radix.denotedFrom (value * 2 ^ radix.width + hexDigitValue digit) digits := by
      rw [← base_eq]
      rfl
    rw [hcons] at h ⊢
    have hstep : value * 2 ^ radix.width + hexDigitValue digit < 2 ^ 53 := by
      have hle := Nat.le_mul_of_pos_right (value * 2 ^ radix.width + hexDigitValue digit)
        (Nat.two_pow_pos (radix.width * digits.length))
      rw [denotedFrom_eq] at h
      omega
    rw [roundedFrom_cons, roundSignificant_of_lt hstep, ih h]

/-- Behind a rounded number the next digit is lost. -/
theorem round_digit {bits k : Nat} (hfull : 2 ^ 52 ≤ bits) (hle : bits ≤ 2 ^ 53) {digit : Char}
    (hdigit : radix.isDigit digit = true) :
    roundSignificant (bits * 2 ^ (k + 1) * 2 ^ radix.width + hexDigitValue digit) =
      bits * 2 ^ (k + 1) * 2 ^ radix.width := by
  have hsmall := digit_lt hdigit
  -- A significand of 54 bits is one of 53 for the next exponent.
  obtain ⟨bits', k', hfull', hlt', heq⟩ : ∃ bits' k', 2 ^ 52 ≤ bits' ∧ bits' < 2 ^ 53 ∧
      bits * 2 ^ (k + 1) = bits' * 2 ^ (k' + 1) := by
    rcases Nat.lt_or_eq_of_le hle with hlt | rfl
    · exact ⟨bits, k, hfull, hlt, rfl⟩
    · refine ⟨2 ^ 52, k + 1, Nat.le_refl _, by decide, ?_⟩
      rw [← Nat.pow_add, ← Nat.pow_add]
      congr 1
      omega
  have hunit : 2 ^ radix.width ≤ 2 ^ (k' + radix.width) :=
    Nat.pow_le_pow_right (by decide) (Nat.le_add_left _ _)
  have htwice := Nat.pow_succ 2 (k' + radix.width)
  rw [heq, mul_unit]
  exact Cut.round_down ⟨hfull', hlt', by omega, rfl⟩ (.inl (by omega))

theorem roundedFrom_full {bits k : Nat} (hfull : 2 ^ 52 ≤ bits) (hle : bits ≤ 2 ^ 53)
    (hdigits : ∀ c ∈ digits, radix.isDigit c = true) :
    radix.roundedFrom (bits * 2 ^ (k + 1)) digits =
      bits * 2 ^ (k + 1) * 2 ^ (radix.width * digits.length) := by
  induction digits generalizing k with
  | nil => simp [roundedFrom]
  | cons digit digits ih =>
    obtain ⟨hdigit, hmore⟩ := List.forall_mem_cons.mp hdigits
    rw [roundedFrom_cons, round_digit hfull hle hdigit, mul_unit, ih hmore, ← mul_unit,
      List.length_cons, Nat.mul_succ, Nat.pow_add]
    ring

/-- Digits that denote a number of more than 53 bits pass 53 bits with one of them. -/
theorem exists_passing {value : Nat} (hvalue : value < 2 ^ 53)
    (h : 2 ^ 53 ≤ radix.denotedFrom value digits) : ∃ front digit back,
    digits = front ++ digit :: back ∧ radix.denotedFrom value front < 2 ^ 53 ∧
      2 ^ 53 ≤ radix.denotedFrom value (front ++ [digit]) := by
  induction digits generalizing value with
  | nil => exact absurd hvalue (Nat.not_lt.mpr h)
  | cons digit digits ih =>
    by_cases hstep : radix.denotedFrom value [digit] < 2 ^ 53
    · obtain ⟨front, next, back, rfl, hlt, hle⟩ := ih hstep h
      exact ⟨digit :: front, next, back, rfl, hlt, hle⟩
    · exact ⟨[], digit, digits, rfl, hvalue, Nat.le_of_not_lt hstep⟩

/-! ### Where the value is rounded -/

/-- `front` are the digits up to the one with which a number passes 53 bits. -/
structure Passing (radix : Radix) (digits front back : List Char) : Prop where
  eq : digits = front ++ back
  le : 2 ^ 53 ≤ radix.denoted front
  lt : ∀ shorter more, front = shorter ++ more → more ≠ [] → radix.denoted shorter < 2 ^ 53
  rounded : radix.roundedFrom 0 front = roundSignificant (radix.denoted front)

theorem denoted_le_append (front back : List Char) :
    radix.denoted front ≤ radix.denoted (front ++ back) := by
  rw [denoted_append]
  exact Nat.le_add_right_of_le (Nat.le_mul_of_pos_right _ (Nat.two_pow_pos _))

theorem exists_passing_denoted (h : 2 ^ 53 ≤ radix.denoted digits) :
    ∃ front back, radix.Passing digits front back := by
  obtain ⟨front, digit, back, rfl, hlt, hle⟩ := exists_passing (Nat.two_pow_pos 53) h
  refine ⟨front ++ [digit], back, by simp, hle, ?_, ?_⟩
  · intro shorter more hsplit hmore
    obtain ⟨init, last, rfl⟩ : ∃ init last, more = init ++ [last] :=
      ⟨_, _, (List.dropLast_concat_getLast hmore).symm⟩
    rw [← List.append_assoc] at hsplit
    obtain ⟨rfl, -⟩ := List.append_inj' hsplit rfl
    exact Nat.lt_of_le_of_lt (denoted_le_append shorter init) hlt
  · rw [roundedFrom_append, roundedFrom_of_lt hlt, roundedFrom_cons, ← base_eq, denoted,
      denotedFrom_append]
    rfl

/-- Some of the digits denote a number that is halfway, the even one below it, and the digits behind
them, which put the whole number above the middle, are not all zero. -/
def LosesTie (radix : Radix) (digits : List Char) : Prop :=
  ∃ front back, digits = front ++ back ∧ HalfwayDown (radix.denoted front) ∧
    radix.denoted back ≠ 0

section Passed

variable {bits k rest : Nat}

theorem Passing.losesTie_iff (h : radix.Passing digits front back)
    (hdigits : ∀ c ∈ digits, radix.isDigit c = true)
    (hcut : Cut (radix.denoted front) bits k rest) :
    radix.LosesTie digits ↔ (rest = 2 ^ k ∧ bits % 2 = 0) ∧ radix.denoted back ≠ 0 := by
  constructor
  · rintro ⟨front', back', heq, ⟨bits', k', hcut', heven⟩, hne⟩
    -- Up to the digit that passes 53 bits nothing is halfway, so `front'` reaches behind it.
    obtain ⟨middle, rfl, rfl⟩ : ∃ middle, front' = front ++ middle ∧ back = middle ++ back' := by
      rcases List.append_eq_append_iff.mp (h.eq.symm.trans heq) with
        ⟨middle, hfront, hback⟩ | ⟨more, hfront, hback⟩
      · exact ⟨middle, hfront, hback⟩
      · by_cases hmore : more = []
        · subst hmore
          exact ⟨[], by simpa using hfront.symm, by simpa using hback.symm⟩
        · exact absurd hcut'.le (Nat.not_le.mpr (h.lt front' more hfront hmore))
    have htail : radix.denoted middle < 2 ^ (radix.width * middle.length) := by
      apply denoted_lt
      intro c hc
      exact hdigits c (by simp [h.eq, hc])
    rw [denoted_append] at hcut'
    obtain ⟨rfl, rfl, hrest⟩ := (hcut.extend htail).unique hcut'
    refine ⟨⟨?_, heven⟩, ?_⟩
    · have hunit := Nat.two_pow_pos (radix.width * middle.length)
      have hdiv := congrArg (· / 2 ^ (radix.width * middle.length)) hrest
      simpa [Nat.pow_add, Nat.add_comm, Nat.add_mul_div_right _ _ hunit, Nat.div_eq_of_lt htail,
        Nat.mul_div_cancel _ hunit] using hdiv
    · rw [denoted_append]
      omega
  · rintro ⟨⟨rfl, heven⟩, hne⟩
    exact ⟨front, back, h.eq, ⟨bits, k, hcut, heven⟩, hne⟩

/-- Behind the digit with which a number passes 53 bits all digits count as zeros. -/
theorem Passing.roundedFrom_eq (h : radix.Passing digits front back)
    (hdigits : ∀ c ∈ digits, radix.isDigit c = true)
    (hcut : Cut (radix.denoted front) bits k rest) :
    radix.roundedFrom 0 digits =
      roundSignificant (radix.denoted front) * 2 ^ (radix.width * back.length) := by
  have hback : ∀ c ∈ back, radix.isDigit c = true := by
    intro c hc
    exact hdigits c (by simp [h.eq, hc])
  rw [h.eq, roundedFrom_append, h.rounded]
  by_cases hdown : Cut.Down bits k rest
  · rw [hcut.round_down hdown]
    exact roundedFrom_full hcut.full (Nat.le_of_lt hcut.lt) hback
  · rw [hcut.round_up hdown]
    exact roundedFrom_full (Nat.le_succ_of_le hcut.full) hcut.lt hback

end Passed

/-- The value of digits is the number that they denote, rounded once, or the number below. -/
theorem roundsTo_iff (hdigits : ∀ c ∈ digits, radix.isDigit c = true) :
    (RoundsTo (radix.denoted digits) (radixValue radix digits) ↔ ¬ radix.LosesTie digits) ∧
    (radix.LosesTie digits → RoundsTo (radix.denoted digits)
      (radixValue radix digits + 2 ^ ((radix.denoted digits).log2 - 52))) := by
  have hvalue : radixValue radix digits = radix.roundedFrom 0 digits := rfl
  rw [hvalue]
  rcases Nat.lt_or_ge (radix.denoted digits) (2 ^ 53) with hlt | hge
  · have hnone : ¬ radix.LosesTie digits := by
      rintro ⟨front, back, rfl, ⟨bits, k, hcut, -⟩, -⟩
      exact Nat.not_lt.mpr (Nat.le_trans hcut.le (denoted_le_append front back)) hlt
    have hrounds := roundsTo_roundSignificant (radix.denoted digits)
    rw [roundSignificant_of_lt hlt] at hrounds
    rw [roundedFrom_of_lt hlt]
    exact ⟨iff_of_true hrounds hnone, fun h => absurd h hnone⟩
  · obtain ⟨front, back, hpassing⟩ := exists_passing_denoted hge
    obtain ⟨bits, k, rest, hcut⟩ := exists_cut hpassing.le
    have htail : radix.denoted back < 2 ^ (radix.width * back.length) := by
      apply denoted_lt
      intro c hc
      exact hdigits c (by simp [hpassing.eq, hc])
    have hlog : (radix.denoted digits).log2 - 52 = k + radix.width * back.length + 1 := by
      rw [hpassing.eq, denoted_append, (hcut.extend htail).log2_eq]
      omega
    rw [hpassing.losesTie_iff hdigits hcut, hpassing.roundedFrom_eq hdigits hcut, hlog,
      hpassing.eq, denoted_append]
    by_cases hloses : (rest = 2 ^ k ∧ bits % 2 = 0) ∧ radix.denoted back ≠ 0
    · obtain ⟨⟨rfl, heven⟩, hne⟩ := hloses
      obtain ⟨hnot, habove⟩ := hcut.extend_above heven htail hne
      exact ⟨iff_of_false hnot fun h => h ⟨⟨rfl, heven⟩, hne⟩, fun _ => habove⟩
    · exact ⟨iff_of_true (hcut.roundsTo_extend htail hloses) hloses, fun h => absurd h hloses⟩

/-- The value of digits has at most 53 significant bits. -/
theorem significant_radixValue (radix : Radix) (digits : List Char) :
    Significant 53 (radixValue radix digits) := by
  have hfrom (value : Nat) (hvalue : Significant 53 value) :
      Significant 53 (radix.roundedFrom value digits) := by
    induction digits generalizing value with
    | nil => exact hvalue
    | cons digit digits ih =>
      rw [roundedFrom_cons]
      exact ih _ (roundsTo_roundSignificant _).significant
  exact hfrom 0 (significant_of_lt (by decide))

theorem radixValue_le {exponent : Nat} (hdigits : ∀ c ∈ digits, radix.isDigit c = true)
    (hlt : radix.denoted digits < 2 ^ exponent) : radixValue radix digits ≤ 2 ^ exponent := by
  obtain ⟨hiff, habove⟩ := roundsTo_iff hdigits
  by_cases hloses : radix.LosesTie digits
  · exact Nat.le_trans (Nat.le_add_right _ _) ((habove hloses).le_two_pow hlt)
  · exact (hiff.mpr hloses).le_two_pow hlt

end Radix

/-- Literals in a radix.  Digits that denote less than `2 ^ 1023` are read, behind a sign or none, as
an integer of at most 53 significant bits.  It is what the digits denote, rounded once to the nearest
such number, exactly if no tie is lost among them; and otherwise it is one unit of its last place too
small. -/
theorem Numeral.radix_rounded (sign : Option Sign) {radix : Radix} {digits : List Char}
    (hne : digits ≠ []) (hdigits : ∀ c ∈ digits, radix.isDigit c = true)
    (hbound : radix.denoted digits < 2 ^ 1023) (rest : List Char)
    (hrest : numberMayEnd rest = true) :
    (∃ value, literalAt? (signText sign ++ '0' :: radix.letter :: digits ++ rest) =
        some (signText sign ++ '0' :: radix.letter :: digits, .number value, rest) ∧
      value.IsInteger (sign == some .minus) (radixValue radix digits)) ∧
    (RoundsTo (radix.denoted digits) (radixValue radix digits) ↔ ¬ radix.LosesTie digits) ∧
    (radix.LosesTie digits → RoundsTo (radix.denoted digits)
      (radixValue radix digits + 2 ^ ((radix.denoted digits).log2 - 52))) := by
  refine ⟨⟨Numeral.value ⟨sign, .inRadix radix digits⟩, ?_, ?_⟩, Radix.roundsTo_iff hdigits⟩
  · have hproper : (Numeral.mk sign (.inRadix radix digits)).magnitude.Proper := ⟨hne, hdigits⟩
    have hscan := Numeral.scan_text hproper hrest
    have hkeyword := keywordAt?_numeral hproper rest
    have htext : (Numeral.mk sign (.inRadix radix digits)).text =
        signText sign ++ '0' :: radix.letter :: digits := rfl
    rw [htext] at hscan hkeyword
    simp only [literalAt?, hkeyword, hscan, Option.map_some, htext]
  · have hle := Radix.radixValue_le hdigits hbound
    exact Binary64.isInteger_ofQuotient (Radix.significant_radixValue radix digits) hle _

/-- The digits up to the last one are halfway behind an even number, and the last one is lost. -/
theorem Numeral.radix_rounded_tie : ∃ digits : List Char, digits ≠ [] ∧
    (∀ c ∈ digits, Radix.hexadecimal.isDigit c = true) ∧
    Radix.hexadecimal.denoted digits = 2 ^ 57 + 17 ∧
    (∃ value, literalAt? ("0x200000000000011".toList ++ []) =
        some ("0x200000000000011".toList, .number value, []) ∧ value.IsInteger false (2 ^ 57)) ∧
    Radix.hexadecimal.LosesTie digits ∧ ¬ RoundsTo (2 ^ 57 + 17) (2 ^ 57) ∧
    RoundsTo (2 ^ 57 + 17) (2 ^ 57 + 2 ^ 5) := by
  let digits : List Char := "200000000000011".toList
  have hdigits : ∀ c ∈ digits, Radix.hexadecimal.isDigit c = true :=
    List.all_eq_true.mp (by decide +kernel)
  have hdenoted : Radix.hexadecimal.denoted digits = 2 ^ 57 + 17 := by decide +kernel
  have hvalue : radixValue .hexadecimal digits = 2 ^ 57 := by decide +kernel
  have hfront : Radix.hexadecimal.denoted "20000000000001".toList = 2 ^ 53 + 1 := by decide +kernel
  have hloses : Radix.hexadecimal.LosesTie digits := by
    refine ⟨"20000000000001".toList, ['1'], by decide, ⟨2 ^ 52, 0, ?_, by omega⟩, by decide⟩
    rw [hfront]
    exact ⟨Nat.le_refl _, by omega, by omega, by omega⟩
  have hbound : Radix.hexadecimal.denoted digits < 2 ^ 1023 := by
    have hpower {j k : Nat} (hle : j ≤ k) : 2 ^ j ≤ 2 ^ k := Nat.pow_le_pow_right (by decide) hle
    rw [hdenoted]
    exact Nat.lt_of_lt_of_le (by omega) (hpower (show 58 ≤ 1023 by decide))
  obtain ⟨hread, hiff, habove⟩ :=
    Numeral.radix_rounded none (by decide) hdigits hbound [] (by decide)
  have hlog : Nat.log2 (2 ^ 57 + 17) - 52 = 5 := by decide +kernel
  rw [hdenoted, hvalue] at hiff habove
  rw [hvalue] at hread
  rw [hlog] at habove
  exact ⟨digits, by decide, hdigits, hdenoted, hread, hloses, fun h => hiff.mp h hloses,
    habove hloses⟩

end DataTemplate
