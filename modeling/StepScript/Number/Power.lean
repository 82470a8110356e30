/-!
# Power — powers of two and of ten

The words of the machine formats are cut at powers of two, decimal numbers at powers of ten.  Both are
named functions, so that a bound reads the same wherever it is stated.
-/

namespace StepScript

/-- The power of two with exponent `k`. -/
def twoPow (k : Nat) : Nat :=
  1 <<< k

def tenPow (k : Nat) : Nat :=
  Nat.pow 10 k

theorem twoPow_succ (k : Nat) : twoPow (k + 1) = 2 * twoPow k := by
  simp only [twoPow, Nat.shiftLeft_succ]

end StepScript
