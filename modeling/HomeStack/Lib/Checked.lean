import Mathlib.Tactic

/-! Checked arithmetic of `u64`: what would overflow is `none`. -/

namespace Checked

/-- `u64::checked_add` -/
def add (a b : Nat) : Option Nat := if a + b < 2 ^ 64 then some (a + b) else none

/-- `checked_sub` of any unsigned integers -/
def sub (a b : Nat) : Option Nat := if b ≤ a then some (a - b) else none

/-- `u64::checked_mul` -/
def mul (a b : Nat) : Option Nat := if a * b < 2 ^ 64 then some (a * b) else none

@[simp] theorem add_eq_some {a b c : Nat} : add a b = some c ↔ a + b < 2 ^ 64 ∧ a + b = c := by
  unfold add
  split <;> simp_all

@[simp] theorem sub_eq_some {a b c : Nat} : sub a b = some c ↔ b ≤ a ∧ a - b = c := by
  unfold sub
  split <;> simp_all

@[simp] theorem mul_eq_some {a b c : Nat} : mul a b = some c ↔ a * b < 2 ^ 64 ∧ a * b = c := by
  unfold mul
  split <;> simp_all

end Checked
