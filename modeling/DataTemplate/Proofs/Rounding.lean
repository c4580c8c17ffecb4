/-
Rounding of natural numbers to 53 significant bits.  A number of more bits is cut into 53 bits and the
rest, which decides whether it is rounded down or up.  Main statements: `roundsTo_roundSignificant` and
`Binary64.isInteger_ofQuotient`.
-/
import Mathlib.Tactic.Ring
import DataTemplate.Number.Binary64

namespace DataTemplate

/-! ### Numbers of few significant bits -/

/-- A natural number of at most so many significant bits. -/
def Significant (bits n : Nat) : Prop :=
  ∃ significand exponent, significand < 2 ^ bits ∧ n = significand * 2 ^ exponent

/-- How far two natural numbers are apart. -/
def distance (m n : Nat) : Nat := (m - n) + (n - m)

/-- `m` is `n` rounded to 53 significant bits.  No such number is nearer, and where another one is as
near, `m` is the one of them whose last bit is zero. -/
structure RoundsTo (n m : Nat) : Prop where
  significant : Significant 53 m
  nearest : ∀ r, Significant 53 r → distance n m ≤ distance n r
  even : ∀ r, Significant 53 r → r ≠ m → distance n r = distance n m → Significant 52 m

theorem significant_of_lt {bits n : Nat} (h : n < 2 ^ bits) : Significant bits n :=
  ⟨n, 0, h, by simp⟩

theorem significant_mul_of_le {bits significand : Nat} (hbits : 0 < bits)
    (h : significand ≤ 2 ^ bits) (exponent : Nat) :
    Significant bits (significand * 2 ^ exponent) := by
  rcases Nat.lt_or_eq_of_le h with hlt | rfl
  · exact ⟨significand, exponent, hlt, rfl⟩
  · refine ⟨1, bits + exponent, Nat.one_lt_two_pow (Nat.ne_of_gt hbits), ?_⟩
    rw [Nat.one_mul, Nat.pow_add]

/-! ### Fifty-three bits and the rest -/

/-- A number of more than 53 bits, cut into its first 53 and the rest, of which there is at least one:
`n = bits * 2 ^ (k + 1) + rest`. -/
structure Cut (n bits k rest : Nat) : Prop where
  full : 2 ^ 52 ≤ bits
  lt : bits < 2 ^ 53
  rest_lt : rest < 2 ^ (k + 1)
  eq : n = bits * 2 ^ (k + 1) + rest

variable {n bits k rest : Nat}

theorem Cut.log2_eq (h : Cut n bits k rest) : n.log2 = 53 + k := by
  obtain ⟨hfull, hlt, hrest, rfl⟩ := h
  have hlow : 2 ^ 52 * 2 ^ (k + 1) ≤ bits * 2 ^ (k + 1) := Nat.mul_le_mul_right _ hfull
  have hhigh : (bits + 1) * 2 ^ (k + 1) ≤ 2 ^ 53 * 2 ^ (k + 1) := Nat.mul_le_mul_right _ hlt
  rw [Nat.succ_mul] at hhigh
  rw [← Nat.pow_add] at hlow hhigh
  have hne : bits * 2 ^ (k + 1) + rest ≠ 0 := by
    have := Nat.two_pow_pos (52 + (k + 1))
    omega
  rw [Nat.log2_eq_iff hne]
  constructor
  · rw [show 53 + k = 52 + (k + 1) by omega]
    omega
  · rw [show 53 + k + 1 = 53 + (k + 1) by omega]
    omega

theorem Cut.le (h : Cut n bits k rest) : 2 ^ 53 ≤ n := by
  have hlow := Nat.mul_le_mul_right (2 ^ (k + 1)) h.full
  have hunit : 2 ^ 1 ≤ 2 ^ (k + 1) := Nat.pow_le_pow_right (by decide) (by omega)
  have heq := h.eq
  omega

theorem exists_cut (h : 2 ^ 53 ≤ n) : ∃ bits k rest, Cut n bits k rest := by
  have hne : n ≠ 0 := by
    have := Nat.two_pow_pos 53
    omega
  have hlog : 53 ≤ n.log2 := (Nat.le_log2 hne).mpr h
  obtain ⟨k, hk⟩ := Nat.exists_eq_add_of_le hlog
  have hlow : 2 ^ 52 * 2 ^ (k + 1) ≤ n := by
    rw [← Nat.pow_add, show 52 + (k + 1) = n.log2 by omega]
    exact Nat.log2_self_le hne
  have hhigh : n < 2 ^ 53 * 2 ^ (k + 1) := by
    rw [← Nat.pow_add, show 53 + (k + 1) = n.log2 + 1 by omega]
    exact Nat.lt_log2_self
  have hunit := Nat.two_pow_pos (k + 1)
  exact ⟨n / 2 ^ (k + 1), k, n % 2 ^ (k + 1), (Nat.le_div_iff_mul_le hunit).mpr hlow,
    (Nat.div_lt_iff_lt_mul hunit).mpr hhigh, Nat.mod_lt _ hunit, (Nat.div_add_mod' n _).symm⟩

/-- A number is cut in one way. -/
theorem Cut.unique {bits' k' rest' : Nat} (h : Cut n bits k rest) (h' : Cut n bits' k' rest') :
    bits = bits' ∧ k = k' ∧ rest = rest' := by
  have hlog := h.log2_eq.symm.trans h'.log2_eq
  obtain rfl : k = k' := by omega
  have hunit := Nat.two_pow_pos (k + 1)
  have hdiv (b r : Nat) (hr : r < 2 ^ (k + 1)) : (b * 2 ^ (k + 1) + r) / 2 ^ (k + 1) = b := by
    rw [Nat.add_comm, Nat.add_mul_div_right _ _ hunit, Nat.div_eq_of_lt hr, Nat.zero_add]
  obtain rfl : bits = bits' := by
    rw [← hdiv bits rest h.rest_lt, ← hdiv bits' rest' h'.rest_lt, ← h.eq, ← h'.eq]
  refine ⟨rfl, rfl, Nat.add_left_cancel (h.eq.symm.trans h'.eq)⟩

/-! ### Down and up -/

/-- The rest is less than half a unit, or half of one behind an even number. -/
def Cut.Down (bits k rest : Nat) : Prop := rest < 2 ^ k ∨ rest = 2 ^ k ∧ bits % 2 = 0

theorem roundQuotient_cut (hrest : rest < 2 ^ (k + 1)) (bits : Nat) :
    roundQuotient (bits * 2 ^ (k + 1) + rest) (2 ^ (k + 1)) =
      if 2 * rest < 2 ^ (k + 1) ∨ 2 * rest = 2 ^ (k + 1) ∧ bits % 2 = 0 then bits
      else bits + 1 := by
  have hunit := Nat.two_pow_pos (k + 1)
  have hdiv : (bits * 2 ^ (k + 1) + rest) / 2 ^ (k + 1) = bits := by
    rw [Nat.add_comm, Nat.add_mul_div_right _ _ hunit, Nat.div_eq_of_lt hrest, Nat.zero_add]
  have hmod : (bits * 2 ^ (k + 1) + rest) % 2 ^ (k + 1) = rest := by
    rw [Nat.add_comm, Nat.add_mul_mod_self_right, Nat.mod_eq_of_lt hrest]
  simp [roundQuotient, hdiv, hmod]

theorem Cut.roundSignificant_eq (h : Cut n bits k rest) :
    roundSignificant n = roundQuotient n (2 ^ (k + 1)) * 2 ^ (k + 1) := by
  have hexcess : 53 + k - 52 = k + 1 := by omega
  simp only [roundSignificant, h.log2_eq, hexcess, Nat.pow_eq]

theorem Cut.round_down (h : Cut n bits k rest) (hdown : Cut.Down bits k rest) :
    roundSignificant n = bits * 2 ^ (k + 1) := by
  have htwice := Nat.pow_succ 2 k
  have hcond : 2 * rest < 2 ^ (k + 1) ∨ 2 * rest = 2 ^ (k + 1) ∧ bits % 2 = 0 :=
    hdown.imp (by omega) (And.imp_left (by omega))
  rw [h.roundSignificant_eq, h.eq, roundQuotient_cut h.rest_lt, if_pos hcond]

theorem Cut.round_up (h : Cut n bits k rest) (hup : ¬ Cut.Down bits k rest) :
    roundSignificant n = (bits + 1) * 2 ^ (k + 1) := by
  have htwice := Nat.pow_succ 2 k
  have hcond : ¬ (2 * rest < 2 ^ (k + 1) ∨ 2 * rest = 2 ^ (k + 1) ∧ bits % 2 = 0) :=
    mt (Or.imp (by omega) (And.imp_left (by omega))) hup
  rw [h.roundSignificant_eq, h.eq, roundQuotient_cut h.rest_lt, if_neg hcond]

theorem roundSignificant_of_lt (h : n < 2 ^ 53) : roundSignificant n = n := by
  have hlog : n.log2 < 53 ∨ n = 0 := by
    by_cases hn : n = 0
    · exact .inr hn
    · exact .inl ((Nat.log2_lt hn).mpr h)
  have hexcess : n.log2 - 52 = 0 := by
    rcases hlog with hlog | rfl
    · omega
    · rfl
  simp [roundSignificant, hexcess, roundQuotient, Nat.mod_one]

/-- No number of 53 significant bits lies between the two neighbours of a longer one. -/
theorem Cut.le_or_le (h : Cut n bits k rest) {r : Nat} (hr : Significant 53 r) :
    r ≤ bits * 2 ^ (k + 1) ∨ (bits + 1) * 2 ^ (k + 1) ≤ r := by
  obtain ⟨significand, exponent, hlt, rfl⟩ := hr
  rcases Nat.lt_or_ge k exponent with hge | hle
  · obtain ⟨more, rfl⟩ := Nat.exists_eq_add_of_le hge
    rw [Nat.add_comm (k + 1) more, Nat.pow_add, ← Nat.mul_assoc]
    rcases Nat.lt_or_ge bits (significand * 2 ^ more) with hhigh | hlow
    · exact .inr (Nat.mul_le_mul_right _ hhigh)
    · exact .inl (Nat.mul_le_mul_right _ hlow)
  · left
    calc significand * 2 ^ exponent
      _ ≤ 2 ^ 53 * 2 ^ k :=
        Nat.mul_le_mul (Nat.le_of_lt hlt) (Nat.pow_le_pow_right (by decide) hle)
      _ = 2 ^ 52 * 2 ^ (k + 1) := by rw [← Nat.pow_add, ← Nat.pow_add]; congr 1; omega
      _ ≤ bits * 2 ^ (k + 1) := Nat.mul_le_mul_right _ h.full

/-- An even number of 53 bits has 52 significant ones. -/
theorem significant_of_even {significand : Nat} (heven : significand % 2 = 0)
    (hle : significand ≤ 2 ^ 53) (exponent : Nat) :
    Significant 52 (significand * 2 ^ exponent) := by
  have hhalf : significand = significand / 2 * 2 := by omega
  rw [hhalf, Nat.mul_assoc, ← Nat.pow_succ']
  exact significant_mul_of_le (by decide) (by omega) _

theorem Cut.roundsTo_down (h : Cut n bits k rest) (hdown : Cut.Down bits k rest) :
    RoundsTo n (bits * 2 ^ (k + 1)) := by
  have heq := h.eq
  have htwice := Nat.pow_succ 2 k
  have hbetween {r : Nat} (hr : Significant 53 r) := h.le_or_le hr
  simp only [Nat.succ_mul] at hbetween
  refine ⟨significant_mul_of_le (by decide) (Nat.le_of_lt h.lt) _, ?_, ?_⟩
  · intro r hr
    have := hbetween hr
    simp only [distance]
    rcases hdown with hdown | ⟨hhalf, -⟩
    · omega
    · omega
  · intro r hr hne htie
    have := hbetween hr
    simp only [distance] at htie
    rcases hdown with hdown | ⟨-, heven⟩
    · omega
    · exact significant_of_even heven (Nat.le_of_lt h.lt) _

theorem Cut.roundsTo_up (h : Cut n bits k rest) (hup : ¬ Cut.Down bits k rest) :
    RoundsTo n ((bits + 1) * 2 ^ (k + 1)) := by
  have heq := h.eq
  have hrest := h.rest_lt
  have htwice := Nat.pow_succ 2 k
  obtain ⟨hhalf, hodd⟩ := not_or.mp hup
  have hbetween {r : Nat} (hr : Significant 53 r) := h.le_or_le hr
  simp only [Nat.succ_mul] at hbetween
  refine ⟨significant_mul_of_le (by decide) h.lt _, ?_, ?_⟩
  · intro r hr
    have := hbetween hr
    simp only [distance, Nat.succ_mul]
    omega
  · intro r hr hne htie
    have := hbetween hr
    simp only [distance, Nat.succ_mul] at htie hne
    have heven : (bits + 1) % 2 = 0 := by
      have hone : ¬ bits % 2 = 0 := fun heven => hodd ⟨by omega, heven⟩
      omega
    exact significant_of_even heven h.lt _

/-- Rounding is to the nearest number of 53 significant bits, and of two to the even one. -/
theorem roundsTo_roundSignificant (n : Nat) : RoundsTo n (roundSignificant n) := by
  rcases Nat.lt_or_ge n (2 ^ 53) with hlt | hge
  · rw [roundSignificant_of_lt hlt]
    refine ⟨significant_of_lt hlt, ?_, ?_⟩
    · intro r _
      simp [distance]
    · intro r _ hne htie
      simp only [distance] at htie
      omega
  · obtain ⟨bits, k, rest, hcut⟩ := exists_cut hge
    by_cases hdown : Cut.Down bits k rest
    · rw [hcut.round_down hdown]
      exact hcut.roundsTo_down hdown
    · rw [hcut.round_up hdown]
      exact hcut.roundsTo_up hdown

/-- The lower neighbour of a number that lies above the middle is not what it rounds to. -/
theorem Cut.not_roundsTo (h : Cut n bits k rest) (hmore : 2 ^ k < rest) :
    ¬ RoundsTo n (bits * 2 ^ (k + 1)) := by
  intro hrounds
  have hupper := hrounds.nearest _ (significant_mul_of_le (by decide) h.lt (k + 1))
  have heq := h.eq
  have hrest := h.rest_lt
  have htwice := Nat.pow_succ 2 k
  simp only [distance, Nat.succ_mul] at hupper
  omega

/-- Rounding does not pass a power of two. -/
theorem RoundsTo.le_two_pow {m exponent : Nat} (h : RoundsTo n m) (hlt : n < 2 ^ exponent) :
    m ≤ 2 ^ exponent := by
  have hpower : Significant 53 (1 * 2 ^ exponent) :=
    significant_mul_of_le (by decide) (by decide) exponent
  have hnear := h.nearest _ hpower
  simp only [distance] at hnear
  omega

/-! ### More bits behind a number -/

/-- Bits behind a number are bits behind its rest. -/
theorem Cut.extend (h : Cut n bits k rest) {m tail : Nat} (htail : tail < 2 ^ m) :
    Cut (n * 2 ^ m + tail) bits (k + m) (rest * 2 ^ m + tail) := by
  have hunit : 2 ^ (k + m + 1) = 2 ^ (k + 1) * 2 ^ m := by
    rw [← Nat.pow_add]
    congr 1
    omega
  have hrest := Nat.mul_le_mul_right (2 ^ m) h.rest_lt
  refine ⟨h.full, h.lt, ?_, ?_⟩
  · rw [Nat.succ_mul] at hrest
    rw [hunit]
    omega
  · rw [h.eq, hunit]
    ring

/-- Bits behind a number that is not halfway behind an even one do not change how it is rounded. -/
theorem Cut.down_extend (hties : ¬ (rest = 2 ^ k ∧ bits % 2 = 0)) {m tail : Nat}
    (htail : tail < 2 ^ m) :
    Cut.Down bits (k + m) (rest * 2 ^ m + tail) ↔ Cut.Down bits k rest := by
  have hhalf := Nat.pow_add 2 k m
  rcases Nat.lt_trichotomy rest (2 ^ k) with hlt | heq | hgt
  · have hless := Nat.mul_le_mul_right (2 ^ m) hlt
    rw [Nat.succ_mul] at hless
    exact iff_of_true (.inl (by omega)) (.inl hlt)
  · have hodd : ¬ bits % 2 = 0 := fun heven => hties ⟨heq, heven⟩
    subst heq
    apply iff_of_false
    · rintro (hless | ⟨-, heven⟩)
      · omega
      · exact hodd heven
    · rintro (hless | ⟨-, heven⟩)
      · exact Nat.lt_irrefl _ hless
      · exact hodd heven
  · have hmore := Nat.mul_le_mul_right (2 ^ m) hgt
    have hpositive := Nat.two_pow_pos m
    rw [Nat.succ_mul] at hmore
    apply iff_of_false
    · rintro (hless | ⟨hequal, -⟩)
      · omega
      · omega
    · rintro (hless | ⟨hequal, -⟩)
      · omega
      · omega

theorem mul_unit (bits k m : Nat) : bits * 2 ^ (k + 1) * 2 ^ m = bits * 2 ^ (k + m + 1) := by
  rw [Nat.mul_assoc, ← Nat.pow_add]
  congr 2
  omega

/-- A number with bits behind it is rounded as it was, unless it was halfway behind an even one and
the bits are not all zero. -/
theorem Cut.roundsTo_extend (h : Cut n bits k rest) {m tail : Nat} (htail : tail < 2 ^ m)
    (hkeeps : ¬ ((rest = 2 ^ k ∧ bits % 2 = 0) ∧ tail ≠ 0)) :
    RoundsTo (n * 2 ^ m + tail) (roundSignificant n * 2 ^ m) := by
  have hwhole := h.extend htail
  have hiff : Cut.Down bits (k + m) (rest * 2 ^ m + tail) ↔ Cut.Down bits k rest := by
    by_cases hties : rest = 2 ^ k ∧ bits % 2 = 0
    · have hzero : tail = 0 := Decidable.not_not.mp fun hne => hkeeps ⟨hties, hne⟩
      have hhalf : rest * 2 ^ m + tail = 2 ^ (k + m) := by
        rw [hties.1, hzero, Nat.pow_add, Nat.add_zero]
      exact iff_of_true (.inr ⟨hhalf, hties.2⟩) (.inr hties)
    · exact Cut.down_extend hties htail
  by_cases hdown : Cut.Down bits k rest
  · rw [h.round_down hdown, mul_unit]
    exact hwhole.roundsTo_down (hiff.mpr hdown)
  · rw [h.round_up hdown, mul_unit]
    exact hwhole.roundsTo_up (mt hiff.mp hdown)

/-- A number halfway behind an even one is rounded up as soon as bits behind it are not all zero. -/
theorem Cut.extend_above (h : Cut n bits k (2 ^ k)) (heven : bits % 2 = 0) {m tail : Nat}
    (htail : tail < 2 ^ m) (hne : tail ≠ 0) :
    ¬ RoundsTo (n * 2 ^ m + tail) (roundSignificant n * 2 ^ m) ∧
      RoundsTo (n * 2 ^ m + tail) (roundSignificant n * 2 ^ m + 2 ^ (k + m + 1)) := by
  have hwhole := h.extend htail
  have habove : 2 ^ (k + m) < 2 ^ k * 2 ^ m + tail := by
    rw [Nat.pow_add]
    omega
  have hup : ¬ Cut.Down bits (k + m) (2 ^ k * 2 ^ m + tail) := by
    rintro (hless | ⟨hequal, -⟩)
    · omega
    · omega
  have hrounds := hwhole.roundsTo_up hup
  rw [Nat.succ_mul] at hrounds
  rw [h.round_down (.inr ⟨rfl, heven⟩), mul_unit]
  exact ⟨hwhole.not_roundsTo habove, hrounds⟩

/-- A number lies halfway between two of 53 significant bits, the lower of which is even. -/
def HalfwayDown (n : Nat) : Prop := ∃ bits k, Cut n bits k (2 ^ k) ∧ bits % 2 = 0

/-! ### Integers in double precision -/

namespace Binary64

/-- A finite value that is an integer, by its sign and its distance from zero. -/
def IsInteger (negative : Bool) (n : Nat) : Binary64 → Prop
  | finite sign significand exponent =>
    sign = negative ∧ significand * 2 ^ exponent.toNat = n * 2 ^ (-exponent).toNat
  | _ => False

theorem floorLog2_one (h : n ≠ 0) : floorLog2 n 1 = n.log2 := by
  have hle := Nat.log2_self_le h
  have hden : Nat.log2 1 = 0 := by decide
  simp [floorLog2, hden, hle]

theorem roundQuotient_mul (quotient : Nat) {den : Nat} (h : 0 < den) :
    roundQuotient (quotient * den) den = quotient := by
  simp [roundQuotient, Nat.mul_div_cancel _ h, h]

/-- A number of 53 significant bits has a significand for the place of its first bit. -/
theorem exists_significand (h : Significant 53 n) (hne : n ≠ 0) :
    ∃ significand, significand < 2 ^ 53 ∧
      n * 2 ^ (52 - n.log2) = significand * 2 ^ (n.log2 - 52) := by
  obtain ⟨short, exponent, hlt, hn⟩ := h
  have hlog : n.log2 < 53 + exponent := by
    rw [Nat.log2_lt hne, Nat.pow_add, hn]
    exact Nat.mul_lt_mul_of_pos_right hlt (Nat.two_pow_pos exponent)
  obtain ⟨more, hmore⟩ := Nat.exists_eq_add_of_le (show n.log2 - 52 ≤ exponent by omega)
  have heq : n * 2 ^ (52 - n.log2) =
      short * 2 ^ more * 2 ^ (52 - n.log2) * 2 ^ (n.log2 - 52) := by
    rw [hmore, Nat.pow_add] at hn
    calc n * 2 ^ (52 - n.log2)
      _ = short * (2 ^ (n.log2 - 52) * 2 ^ more) * 2 ^ (52 - n.log2) := by rw [← hn]
      _ = short * 2 ^ more * 2 ^ (52 - n.log2) * 2 ^ (n.log2 - 52) := by ring
  refine ⟨_, ?_, heq⟩
  apply Nat.lt_of_mul_lt_mul_right (a := 2 ^ (n.log2 - 52))
  calc short * 2 ^ more * 2 ^ (52 - n.log2) * 2 ^ (n.log2 - 52)
    _ = n * 2 ^ (52 - n.log2) := heq.symm
    _ < 2 ^ (n.log2 + 1) * 2 ^ (52 - n.log2) :=
      Nat.mul_lt_mul_of_pos_right Nat.lt_log2_self (Nat.two_pow_pos _)
    _ = 2 ^ 53 * 2 ^ (n.log2 - 52) := by rw [← Nat.pow_add, ← Nat.pow_add]; congr 1; omega

/-- Numbers of 53 significant bits up to the greatest power of two are values as they are. -/
theorem isInteger_ofQuotient (h : Significant 53 n) (hle : n ≤ 2 ^ 1023) (negative : Bool) :
    (ofQuotient negative n 1).IsInteger negative n := by
  by_cases hne : n = 0
  · subst hne
    simp [ofQuotient, zero, IsInteger]
  · obtain ⟨significand, hsignificand, heq⟩ := exists_significand h hne
    have hbits (k : Nat) (hk : n ≤ 2 ^ k) : n.log2 < k + 1 :=
      (Nat.log2_lt hne).mpr (Nat.lt_of_le_of_lt hk (Nat.pow_lt_pow_right (by decide) (by omega)))
    have hlog := hbits 1023 hle
    have hexponent : max ((n.log2 : Int) - 52) leastExponent = (n.log2 : Int) - 52 := by
      simp only [leastExponent]
      omega
    have hdown : ((n.log2 : Int) - 52).toNat = n.log2 - 52 := by omega
    have hup : (-((n.log2 : Int) - 52)).toNat = 52 - n.log2 := by omega
    have hround : roundQuotient (n * 2 ^ (52 - n.log2)) (1 * 2 ^ (n.log2 - 52)) = significand := by
      rw [heq, Nat.one_mul, roundQuotient_mul _ (Nat.two_pow_pos _)]
    have hcarried : (significand == 2 * leastFull) = false := by
      simp only [leastFull, beq_eq_false_iff_ne]
      omega
    have hgreatest : ¬ greatestExponent < (n.log2 : Int) - 52 := by
      simp only [greatestExponent]
      omega
    have hvalue : ofQuotient negative n 1 = .finite negative significand ((n.log2 : Int) - 52) := by
      simp only [ofQuotient, if_neg hne, floorLog2_one hne, hexponent, hdown, hup, Nat.pow_eq,
        hround, hcarried, Bool.false_eq_true, if_false, if_neg hgreatest]
    rw [hvalue, IsInteger, hdown, hup]
    exact ⟨rfl, heq.symm⟩

end Binary64

end DataTemplate
