import Mathlib.Algebra.Ring.Int.Defs
import Mathlib.Algebra.Ring.Nat
import Mathlib.Data.Int.Init
import Mathlib.Tactic.Common

/-!
# Bytes by offset

Big-endian numbers in a store of bytes, and copying a buffer into it.
-/

namespace Drbd.Lib

/-- The number in the `n` bytes from `off` on, highest byte first. -/
def beNat (f : Nat → UInt8) (off : Nat) : Nat → Nat
  | 0 => 0
  | n + 1 => beNat f off n * 256 + (f (off + n)).toNat

/-- The `n` lowest bytes of a number, highest first. -/
def beBytes : Nat → Nat → List UInt8
  | 0, _ => []
  | n + 1, v => UInt8.ofNat (v / 256 ^ n) :: beBytes n v

/-- `count` bytes of a buffer, put at `off`. -/
def blit (f : Nat → UInt8) (off count : Nat) (buf : Nat → UInt8) : Nat → UInt8 := fun x =>
  if off ≤ x ∧ x < off + count then buf (x - off) else f x

/-- The value of a signed integer of `w` bits. -/
def signed (w : Nat) (n : Int) : Int := n.bmod (2 ^ w)

/-- The value of an unsigned integer of `w` bits. -/
def unsigned (w : Nat) (n : Int) : Nat := (n % 2 ^ w).toNat

variable {f g buf : Nat → UInt8} {off count x : Nat}

theorem beNat_lt (f : Nat → UInt8) (off n : Nat) : beNat f off n < 256 ^ n := by
  induction n with
  | zero => simp [beNat]
  | succ n ih =>
      have hb := (f (off + n)).toNat_lt
      simp only [beNat, Nat.pow_succ]
      omega

@[simp] theorem length_beBytes (n v : Nat) : (beBytes n v).length = n := by
  induction n with
  | zero => rfl
  | succ n ih => rw [beBytes, List.length_cons, ih]

theorem getElem_beBytes {n i : Nat} (v : Nat) (hi : i < (beBytes n v).length) :
    (beBytes n v)[i] = UInt8.ofNat (v / 256 ^ (n - 1 - i)) := by
  induction n generalizing i with
  | zero => exact absurd hi (Nat.not_lt_zero i)
  | succ n ih =>
      cases i with
      | zero => rfl
      | succ i =>
          have hi' : i < (beBytes n v).length := Nat.lt_of_succ_lt_succ hi
          rw [show n + 1 - 1 - (i + 1) = n - 1 - i by omega]
          exact ih hi'

/-- A number that was put into `n` bytes is read back from there, less what does not fit. -/
theorem beNat_beBytes {n v off : Nat} (h : ∀ i, (hi : i < (beBytes n v).length) → f (off + i) = (beBytes n v)[i]) :
    beNat f off n = v % 256 ^ n := by
  have hprefix : ∀ k ≤ n, beNat f off k = v / 256 ^ (n - k) % 256 ^ k := by
    intro k
    induction k with
    | zero => exact fun _ => (Nat.mod_one _).symm
    | succ k ih =>
        intro hk
        have hi : k < (beBytes n v).length := by rw [length_beBytes]; omega
        have hstep : v / 256 ^ (n - k) = v / 256 ^ (n - (k + 1)) / 256 := by
          rw [Nat.div_div_eq_div_mul, ← Nat.pow_succ]
          exact congrArg (fun e => v / 256 ^ e) (by omega)
        have hpow : 256 ^ (k + 1) = 256 * 256 ^ k := Nat.pow_succ'
        rw [beNat, ih (by omega), h k hi, getElem_beBytes v hi, UInt8.toNat_ofNat',
          show n - 1 - k = n - (k + 1) by omega, hstep, hpow, Nat.mod_mul]
        omega
  have hall := hprefix n (Nat.le_refl n)
  rwa [Nat.sub_self, Nat.pow_zero, Nat.div_one] at hall

theorem signed_lt (w : Nat) (n : Int) : signed (w + 1) n < 2 ^ w := by
  have h := @Int.bmod_lt n (2 ^ (w + 1)) (Nat.two_pow_pos _)
  unfold signed
  push_cast [Nat.pow_succ] at h ⊢
  omega

theorem le_signed (w : Nat) (n : Int) : -2 ^ w ≤ signed (w + 1) n := by
  have h := @Int.le_bmod n (2 ^ (w + 1)) (Nat.two_pow_pos _)
  unfold signed
  push_cast [Nat.pow_succ] at h ⊢
  omega

theorem signed_emod (w : Nat) (n : Int) : signed w n % 2 ^ w = n % 2 ^ w := by
  have h := @Int.bmod_emod n (2 ^ w)
  push_cast at h
  exact h

theorem signed_congr {w : Nat} {m n : Int} (h : m % 2 ^ w = n % 2 ^ w) : signed w m = signed w n := by
  unfold signed
  rw [← Int.emod_bmod (x := m), ← Int.emod_bmod (x := n)]
  push_cast
  rw [h]

theorem signed_eq_self {w : Nat} {n : Int} (h1 : -2 ^ w ≤ n) (h2 : n < 2 ^ w) : signed (w + 1) n = n := by
  refine Int.bmod_eq_of_le ?_ ?_
  · push_cast [Nat.pow_succ]
    omega
  · push_cast [Nat.pow_succ]
    omega

theorem unsigned_eq_self {w : Nat} {n : Int} (h1 : 0 ≤ n) (h2 : n < 2 ^ w) : (unsigned w n : Int) = n := by
  unfold unsigned
  rw [Int.emod_eq_of_lt h1 h2, Int.toNat_of_nonneg h1]

theorem blit_congr (h : f x = g x) : blit f off count buf x = blit g off count buf x := by
  unfold blit
  split
  · rfl
  · exact h

/-- Where the buffer lands, what was there before does not matter. -/
theorem blit_inside (h1 : off ≤ x) (h2 : x < off + count) :
    blit f off count buf x = blit g off count buf x := by
  simp only [blit, if_pos (And.intro h1 h2)]

theorem blit_self : blit f off count (fun i => f (off + i)) = f := by
  funext x
  unfold blit
  split
  · rename_i h
    exact congrArg f (Nat.add_sub_cancel' h.1)
  · rfl

end Drbd.Lib
