import Mathlib.Algebra.Ring.Int.Defs
import Mathlib.Algebra.Ring.Nat
import Mathlib.Data.List.Basic
import Mathlib.Tactic.Common

/-!
# Run-length form, and words in little-endian order

A sequence is written as single elements and as runs of one element. How a writer groups it does not
matter: what counts is what the pieces spell.
-/

namespace Drbd.Lib

variable {α : Type}

/-- A single element, or `count` times the same one. -/
inductive Piece (α : Type)
  | one (v : α)
  | run (count : Nat) (v : α)
deriving Repr, DecidableEq

def Piece.spell : Piece α → List α
  | .one v => [v]
  | .run count v => List.replicate count v

/-- The sequence that the pieces stand for. -/
def spell (ps : List (Piece α)) : List α := ps.flatMap Piece.spell

@[simp] theorem spell_nil : spell ([] : List (Piece α)) = [] := rfl

@[simp] theorem spell_cons (p : Piece α) (ps : List (Piece α)) : spell (p :: ps) = p.spell ++ spell ps :=
  List.flatMap_cons

@[simp] theorem spell_append (ps qs : List (Piece α)) : spell (ps ++ qs) = spell ps ++ spell qs :=
  List.flatMap_append

section Runs

variable [DecidableEq α] (f : Nat → α) (v : α)

/-- How many of the `n` elements from `i` on are `v`, up to the first that is not. -/
def runLength : Nat → Nat → Nat
  | 0, _ => 0
  | n + 1, i => if f i = v then runLength n (i + 1) + 1 else 0

theorem runLength_le (n i : Nat) : runLength f v n i ≤ n := by
  induction n generalizing i with
  | zero => exact Nat.le_refl 0
  | succ n ih =>
      have := ih (i + 1)
      unfold runLength
      split <;> omega

theorem eq_of_lt_runLength {n i k : Nat} (h : k < runLength f v n i) : f (i + k) = v := by
  induction n generalizing i k with
  | zero => exact absurd h (Nat.not_lt_zero k)
  | succ n ih =>
      unfold runLength at h
      split at h
      · rename_i hv
        cases k with
        | zero => exact hv
        | succ k =>
            have := ih (Nat.lt_of_succ_lt_succ h)
            rwa [show i + 1 + k = i + (k + 1) by omega] at this
      · exact absurd h (Nat.not_lt_zero k)

end Runs

/-! ## Words -/

/-- The little-endian number in the `n` bytes from `off` on. -/
def leNat (buf : Nat → UInt8) (off : Nat) : Nat → Nat
  | 0 => 0
  | n + 1 => (buf off).toNat + 256 * leNat buf (off + 1) n

/-- A buffer as an array of 64-bit words. -/
def wordsOf (buf : Nat → UInt8) : Nat → Nat := fun i => leNat buf (8 * i) 8

/-- The bytes of an array of 64-bit words. -/
def bytesOf (bm : Nat → Nat) : Nat → UInt8 := fun x => UInt8.ofNat (bm (x / 8) / 256 ^ (x % 8))

theorem byte_leNat (buf : Nat → UInt8) (off : Nat) {n k : Nat} (hk : k < n) :
    UInt8.ofNat (leNat buf off n / 256 ^ k) = buf (off + k) := by
  induction n generalizing off k with
  | zero => exact absurd hk (Nat.not_lt_zero k)
  | succ n ih =>
      have hb := (buf off).toNat_lt
      cases k with
      | zero =>
          rw [leNat, Nat.pow_zero, Nat.div_one, ← UInt8.toNat_inj, UInt8.toNat_ofNat', Nat.add_zero off]
          omega
      | succ k =>
          have hdiv : leNat buf off (n + 1) / 256 ^ (k + 1) = leNat buf (off + 1) n / 256 ^ k := by
            rw [Nat.pow_succ', ← Nat.div_div_eq_div_mul, leNat]
            congr 1
            omega
          rw [hdiv, ih (off + 1) (Nat.lt_of_succ_lt_succ hk), show off + 1 + k = off + (k + 1) by omega]

@[simp] theorem bytesOf_wordsOf (buf : Nat → UInt8) : bytesOf (wordsOf buf) = buf := by
  funext x
  unfold bytesOf wordsOf
  rw [byte_leNat buf _ (Nat.mod_lt x (by decide)), Nat.div_add_mod]

theorem leNat_shift (buf : Nat → UInt8) (a off n : Nat) :
    leNat (fun x => buf (a + x)) off n = leNat buf (a + off) n := by
  induction n generalizing off with
  | zero => rfl
  | succ n ih => rw [leNat, leNat, ih, Nat.add_assoc]

theorem wordsOf_shift (buf : Nat → UInt8) (r k : Nat) : wordsOf (fun x => buf (8 * r + x)) k = wordsOf buf (r + k) := by
  unfold wordsOf
  rw [leNat_shift, Nat.mul_add]

end Drbd.Lib
