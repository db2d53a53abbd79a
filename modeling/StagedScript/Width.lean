/-!
# The width of integers

The integers of the language have 64 bits and a sign.
-/

namespace StagedScript

/-- Whether an integer is one of the language. -/
def fits (n : Int) : Bool := decide (Int64.minValue.toInt ≤ n ∧ n ≤ Int64.maxValue.toInt)

theorem fits_iff {n : Int} :
    fits n = true ↔ -9223372036854775808 ≤ n ∧ n ≤ 9223372036854775807 := by
  have hlo : Int64.minValue.toInt = -9223372036854775808 := by decide
  have hhi : Int64.maxValue.toInt = 9223372036854775807 := by decide
  simp [fits, hlo, hhi]

/-- An integer that fits is the value of its 64-bit form. -/
theorem toInt_ofInt_of_fits {n : Int} (h : fits n = true) : (Int64.ofInt n).toInt = n := by
  have h := fits_iff.1 h
  exact Int64.toInt_ofInt_of_le (by omega) (by omega)

end StagedScript
