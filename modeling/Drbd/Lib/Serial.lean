import Mathlib.Algebra.Ring.Int.Defs
import Mathlib.Algebra.Ring.Nat
import Mathlib.Tactic.Common

/-!
# Serial numbers

A counter of 32 bits wraps around. Two of its values are compared by the sign of their difference,
which is right as long as they were taken less than half a turn apart.
-/

namespace Drbd.Lib

/-- `(int)a - (int)b` of two's complement, as an unsigned value. -/
def serialDiff (a b : Nat) : Nat := (a + (2 ^ 32 - b % 2 ^ 32)) % 2 ^ 32

/-- `(int)a - (int)b < 0` -/
def SerialLt (a b : Nat) : Prop := 2 ^ 31 ≤ serialDiff a b

/-- `(int)a - (int)b > 0` -/
def SerialGt (a b : Nat) : Prop := 0 < serialDiff a b ∧ serialDiff a b < 2 ^ 31

instance (a b : Nat) : Decidable (SerialLt a b) := inferInstanceAs (Decidable (_ ≤ _))
instance (a b : Nat) : Decidable (SerialGt a b) := inferInstanceAs (Decidable (_ ∧ _))

variable {base x y : Nat}

theorem serialDiff_of_le {t : Nat} (ht : t < 2 ^ 31) (a : Nat) :
    serialDiff ((a + t) % 2 ^ 32) (a % 2 ^ 32) = t := by
  unfold serialDiff
  omega

theorem serialDiff_of_ge {t : Nat} (ht : t < 2 ^ 31) (a : Nat) :
    serialDiff (a % 2 ^ 32) ((a + t) % 2 ^ 32) = (2 ^ 32 - t) % 2 ^ 32 := by
  unfold serialDiff
  omega

theorem serialLt_iff (hx : x < y + 2 ^ 31) (hy : y < x + 2 ^ 31) :
    SerialLt ((base + x) % 2 ^ 32) ((base + y) % 2 ^ 32) ↔ x < y := by
  unfold SerialLt
  rcases Nat.le_total x y with h | h
  · obtain ⟨t, rfl⟩ := Nat.exists_eq_add_of_le h
    rw [← Nat.add_assoc, serialDiff_of_ge (by omega)]
    omega
  · obtain ⟨t, rfl⟩ := Nat.exists_eq_add_of_le h
    rw [← Nat.add_assoc, serialDiff_of_le (by omega)]
    omega

theorem serialGt_iff (hx : x < y + 2 ^ 31) (hy : y < x + 2 ^ 31) :
    SerialGt ((base + x) % 2 ^ 32) ((base + y) % 2 ^ 32) ↔ y < x := by
  unfold SerialGt
  rcases Nat.le_total x y with h | h
  · obtain ⟨t, rfl⟩ := Nat.exists_eq_add_of_le h
    rw [← Nat.add_assoc, serialDiff_of_ge (by omega)]
    omega
  · obtain ⟨t, rfl⟩ := Nat.exists_eq_add_of_le h
    rw [← Nat.add_assoc, serialDiff_of_le (by omega)]
    omega

end Drbd.Lib
