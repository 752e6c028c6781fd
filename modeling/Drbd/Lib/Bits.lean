import Mathlib.Data.Nat.Bitwise

/-!
# Numbers in a sequence of bits

A number stands in a sequence, lowest bit first, when the sequence has its bits from a position on.
-/

namespace Drbd.Lib

/-- The `len` bits from `pos` on are those of `val`. -/
def Spells (f : Nat → Bool) (pos len val : Nat) : Prop :=
  ∀ k < len, f (pos + k) = val.testBit k

variable {f g : Nat → Bool} {pos len val : Nat}

theorem Spells.congr (h : Spells f pos len val) (hfg : ∀ k < len, g (pos + k) = f (pos + k)) :
    Spells g pos len val :=
  fun k hk => (hfg k hk).trans (h k hk)

/-- A number that shows at least these bits begins with the value. -/
theorem Spells.mod_eq (h : Spells f pos len val) (hval : val < 2 ^ len) {n y : Nat} (hn : len ≤ n)
    (hy : ∀ k < n, y.testBit k = f (pos + k)) : y % 2 ^ len = val := by
  apply Nat.eq_of_testBit_eq
  intro k
  rw [Nat.testBit_mod_two_pow]
  by_cases hk : k < len
  · rw [decide_eq_true hk, Bool.true_and, hy k (by omega), h k hk]
  · rw [decide_eq_false hk, Bool.false_and]
    exact (Nat.testBit_lt_two_pow (lt_of_lt_of_le hval (Nat.pow_le_pow_right (by decide)
      (by omega)))).symm

end Drbd.Lib
