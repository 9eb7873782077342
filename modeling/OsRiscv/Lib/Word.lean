import Mathlib.Tactic.Ring

/-!
# Word — signed numbers of 32 and 64 bits

What a C compiler makes of a number that is stored in an `int` or a `long`.
-/

namespace OsRiscv
namespace Lib

/-- The value of 32 bits as an `int`. -/
def int (x : Int) : Int := if x % 2 ^ 32 < 2 ^ 31 then x % 2 ^ 32 else x % 2 ^ 32 - 2 ^ 32

/-- The value of 64 bits as a `long`. -/
def long (x : Int) : Int := if x % 2 ^ 64 < 2 ^ 63 then x % 2 ^ 64 else x % 2 ^ 64 - 2 ^ 64

variable {x : Int}

lemma int_of_lt (h0 : 0 ≤ x) (hx : x < 2 ^ 31) : int x = x := by
  unfold int
  omega

lemma int_lt (x : Int) : -2 ^ 31 ≤ int x ∧ int x < 2 ^ 31 := by
  unfold int
  omega

lemma long_cases {v : Nat} (hv : v < 2 ^ 64) : (v < 2 ^ 63 ∧ long v = v) ∨ (2 ^ 63 ≤ v ∧ long v = v - 2 ^ 64) := by
  unfold long
  omega

end Lib
end OsRiscv
