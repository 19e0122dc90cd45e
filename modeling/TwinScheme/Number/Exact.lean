/-!
# Integers of sixty-four bits

The integers of the language are the signed words of sixty-four bits, and no
operation on them wraps. Each is computed on the unbounded integers and brought
back by `word?`, which has an answer exactly when the result is a word.
-/

namespace TwinScheme.Number

/-- The word with a given value, if there is one. -/
def word? (n : Int) : Option Int64 :=
  if -0x8000000000000000 ≤ n ∧ n < 0x8000000000000000 then some (Int64.ofInt n) else none

/-- The decimal digits of an integer, with a minus sign if it is negative. -/
def integerText (n : Int) : String :=
  String.ofList (if n < 0 then '-' :: Nat.toDigits 10 n.natAbs else Nat.toDigits 10 n.natAbs)

/-- A word is the answer for its own value and for no other. -/
theorem word?_eq_some_iff {n : Int} {k : Int64} : word? n = some k ↔ k.toInt = n := by
  constructor
  · intro h
    simp only [word?] at h
    split at h
    · next hr => cases h; exact Int64.toInt_ofInt_of_le hr.1 hr.2
    · cases h
  · rintro rfl
    rw [word?, if_pos ⟨k.le_toInt, k.toInt_lt⟩, Int64.ofInt_toInt]

theorem word?_toInt (k : Int64) : word? k.toInt = some k :=
  word?_eq_some_iff.2 rfl

/-- There is no word outside the range of sixty-four bits. -/
theorem word?_eq_none_iff {n : Int} :
    word? n = none ↔ n < -0x8000000000000000 ∨ 0x8000000000000000 ≤ n := by
  simp only [word?]
  split <;> simp <;> omega

end TwinScheme.Number
