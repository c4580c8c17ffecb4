/-
Byte positions in a run of characters.  A text is a list of characters; positions count the
bytes of its UTF-8 form, and a cut that would fall inside a character is widened to take all of it.
Main statements: a cut loses nothing, and a cut at a boundary falls exactly there.
-/

namespace DataTemplate

/-- The number of bytes that a run of characters takes in UTF-8. -/
def byteLength : List Char → Nat
  | [] => 0
  | c :: cs => c.utf8Size + byteLength cs

@[simp] theorem byteLength_nil : byteLength [] = 0 := rfl

@[simp] theorem byteLength_cons (c : Char) (cs : List Char) :
    byteLength (c :: cs) = c.utf8Size + byteLength cs := rfl

@[simp] theorem byteLength_append (xs ys : List Char) :
    byteLength (xs ++ ys) = byteLength xs + byteLength ys := by
  induction xs with
  | nil => simp
  | cons c cs ih => simp [ih, Nat.add_assoc]

theorem byteLength_eq_zero_iff {cs : List Char} : byteLength cs = 0 ↔ cs = [] := by
  cases cs with
  | nil => simp
  | cons c cs => simp; have := c.utf8Size_pos; omega

theorem byteLength_pos_iff {cs : List Char} : 0 < byteLength cs ↔ cs ≠ [] := by
  rw [Nat.pos_iff_ne_zero, ne_eq, byteLength_eq_zero_iff]

/-- Cut off the fewest leading characters that hold `n` bytes, or all of them if there are fewer. -/
def cutBytes : Nat → List Char → List Char × List Char
  | 0, cs => ([], cs)
  | _ + 1, [] => ([], [])
  | n + 1, c :: cs =>
    let cut := cutBytes (n + 1 - c.utf8Size) cs
    (c :: cut.1, cut.2)

@[simp] theorem cutBytes_zero (cs : List Char) : cutBytes 0 cs = ([], cs) := by
  simp [cutBytes]

@[simp] theorem cutBytes_nil (n : Nat) : cutBytes n [] = ([], []) := by
  cases n <;> simp [cutBytes]

theorem cutBytes_cons {n : Nat} (hn : 0 < n) (c : Char) (cs : List Char) :
    cutBytes n (c :: cs) =
      (c :: (cutBytes (n - c.utf8Size) cs).1, (cutBytes (n - c.utf8Size) cs).2) := by
  cases n with
  | zero => omega
  | succ n => rw [cutBytes]

/-- A cut loses nothing. -/
theorem cutBytes_append (n : Nat) (cs : List Char) :
    (cutBytes n cs).1 ++ (cutBytes n cs).2 = cs := by
  fun_induction cutBytes n cs with
  | case1 => rfl
  | case2 => rfl
  | case3 n c cs cut ih => exact congrArg (c :: ·) ih

/-- A cut at a boundary falls exactly there. -/
theorem cutBytes_byteLength (xs ys : List Char) :
    cutBytes (byteLength xs) (xs ++ ys) = (xs, ys) := by
  induction xs with
  | nil => simp
  | cons c cs ih =>
    have := c.utf8Size_pos
    rw [List.cons_append, cutBytes_cons (by simp; omega), byteLength_cons,
      Nat.add_sub_cancel_left, ih]

/-- The part cut off holds the bytes asked for, unless the text is shorter. -/
theorem le_byteLength_cutBytes (n : Nat) (cs : List Char) :
    min n (byteLength cs) ≤ byteLength (cutBytes n cs).1 := by
  fun_induction cutBytes n cs with
  | case1 => simp
  | case2 => simp
  | case3 n c cs cut ih =>
    have := c.utf8Size_pos
    simp only [byteLength_cons, cut]
    omega

theorem cutBytes_ne_nil {n : Nat} (hn : 0 < n) {cs : List Char} (hcs : cs ≠ []) :
    (cutBytes n cs).1 ≠ [] := by
  cases cs with
  | nil => exact absurd rfl hcs
  | cons c cs => rw [cutBytes_cons hn]; simp

example : cutBytes 1 ['é', 'a'] = (['é'], ['a']) := by decide
example : cutBytes 9 ['a', 'b'] = (['a', 'b'], []) := by decide
example : byteLength ['a', 'é', '😀'] = 7 := by decide

end DataTemplate
