import Drbd.ActLog.Lemmas.Invariant
import Drbd.ApplyAl.Replay

/-!
# Where a transaction is stored

The kernel and drbdmeta deal out the ring to the stripes in the same way, and nothing overflows. But the counter of
the transactions has 32 bits: where it wraps around, the ring need not.
-/

namespace Drbd.ApplyAl

open Lib ActLog

/-- `al_tr_number_to_on_disk_sector`, in 32 bits up to the last sum. -/
def alTrNumberToOnDiskSector (md : Layout) (mdOffset : Nat) (alOffset : Int) (alTrNumber : Nat) : Nat :=
  let t : Nat := alTrNumber % md.alSize4k
  let t : Nat := (t % md.alStripes * md.alStripeSize4k + t / md.alStripes) % 2 ^ 32
  let t : Nat := t * 8 % 2 ^ 32
  unsigned 64 (mdOffset + alOffset + t)

/-- What the striping is to do for the transactions from number `a` on, for one turn of the ring. -/
structure SlotMapping (md : Layout) (a : Nat) : Prop where
  bijective : Set.BijOn (fun t => t % md.alStripes * md.alStripeSize4k + t / md.alStripes)
    (Set.Iio (md.alStripes * md.alStripeSize4k)) (Set.Iio (md.alStripes * md.alStripeSize4k))
  /-- both sides compute the block of the ring position -/
  agree : ∀ b < 2 ^ 32, ∀ cpu : Meta.MdCpu, cpu.alStripes = md.alStripes → cpu.alStripeSize4k = md.alStripeSize4k →
    ∃ t, t = b % (md.alStripes * md.alStripeSize4k) ∧
      alTrNumberToOnDiskSlot cpu b (blocks84 cpu) = some (t % md.alStripes * md.alStripeSize4k + t / md.alStripes) ∧
      ∀ mdOffset alOffset, alTrNumberToOnDiskSector md mdOffset alOffset b =
        unsigned 64 (mdOffset + alOffset + (8 * (t % md.alStripes * md.alStripeSize4k + t / md.alStripes) : Nat))
  distinct : ∀ mdOffset alOffset, ∀ i < md.alSize4k, ∀ j < md.alSize4k,
    alTrNumberToOnDiskSector md mdOffset alOffset ((a + i) % 2 ^ 32) =
      alTrNumberToOnDiskSector md mdOffset alOffset ((a + j) % 2 ^ 32) → i = j

variable {md : Layout} {a b : Nat}

theorem onDiskBlock_lt (md : Layout) (b : Nat) : stripe md.alStripes md.alStripeSize4k (b % md.alSize4k) < 2 ^ 22 := by
  have hlow : 64 / 8 ≤ md.alSize4k := md.lower
  exact Nat.lt_of_lt_of_le (stripe_lt (Nat.mod_lt b (by omega))) md.upper

theorem alTrNumberToOnDiskSector_eq (md : Layout) (mdOffset : Nat) (alOffset : Int) (b : Nat) :
    alTrNumberToOnDiskSector md mdOffset alOffset b =
      unsigned 64 (mdOffset + alOffset + (8 * stripe md.alStripes md.alStripeSize4k (b % md.alSize4k) : Nat)) := by
  have hlt := onDiskBlock_lt md b
  show unsigned 64 (mdOffset + alOffset +
    (stripe md.alStripes md.alStripeSize4k (b % md.alSize4k) % 2 ^ 32 * 8 % 2 ^ 32 : Nat)) = _
  rw [Nat.mod_eq_of_lt (show stripe _ _ _ < 2 ^ 32 by omega), Nat.mod_eq_of_lt (show _ < 2 ^ 32 by omega), Nat.mul_comm]

/-- drbdmeta looks where the kernel writes. -/
theorem alTrNumberToOnDiskSlot_eq {cpu : Meta.MdCpu} (hstripes : cpu.alStripes = md.alStripes)
    (hsize : cpu.alStripeSize4k = md.alStripeSize4k) (b : Nat) :
    alTrNumberToOnDiskSlot cpu b (blocks84 cpu) = some (stripe md.alStripes md.alStripeSize4k (b % md.alSize4k)) := by
  have hlt := onDiskBlock_lt md b
  have hlow : 64 / 8 ≤ md.alSize4k := md.lower
  have hupper : md.alSize4k ≤ 16 * 1024 * 1024 / 4 := md.upper
  have hmx : blocks84 cpu = md.alSize4k := by
    unfold blocks84
    rw [hstripes, hsize]
    exact Nat.mod_eq_of_lt (show md.alSize4k < 2 ^ 32 by omega)
  unfold stripe at hlt ⊢
  unfold alTrNumberToOnDiskSlot
  rw [hmx, hstripes, hsize, if_neg, Nat.mod_eq_of_lt (show _ < 2 ^ 32 by omega)]
  have hpos := md.stripes_pos
  omega

/-- Two numbers have the same sector if they have the same position on the ring. -/
theorem sector_eq_iff (mdOffset : Nat) (alOffset : Int) (b b' : Nat) :
    alTrNumberToOnDiskSector md mdOffset alOffset b = alTrNumberToOnDiskSector md mdOffset alOffset b' ↔
      b % md.alSize4k = b' % md.alSize4k := by
  have hlow : 64 / 8 ≤ md.alSize4k := md.lower
  rw [alTrNumberToOnDiskSector_eq, alTrNumberToOnDiskSector_eq]
  refine ⟨fun h => ?_, fun h => by rw [h]⟩
  have hlt := onDiskBlock_lt md b
  have hlt' := onDiskBlock_lt md b'
  refine stripe_inj (m := md.alStripes) (k := md.alStripeSize4k) (Nat.mod_lt b (by omega)) (Nat.mod_lt b' (by omega)) ?_
  generalize stripe md.alStripes md.alStripeSize4k (b % md.alSize4k) = x at h hlt ⊢
  generalize stripe md.alStripes md.alStripeSize4k (b' % md.alSize4k) = y at h hlt' ⊢
  unfold unsigned at h
  omega

/-- The mapping does all it is to do unless the counter wraps around within the turn and the ring is not a power of
two. -/
theorem slotMapping_iff (md : Layout) (ha : a < 2 ^ 32) :
    SlotMapping md a ↔ a + md.alSize4k ≤ 2 ^ 32 ∨ md.alSize4k ∣ 2 ^ 32 := by
  have hupper : md.alSize4k ≤ 16 * 1024 * 1024 / 4 := md.upper
  rw [← ring_counter_inj_iff ha (show md.alSize4k ≤ 2 ^ 32 by omega)]
  constructor
  · intro h i hi j hj heq
    exact h.distinct 0 0 i hi j hj ((sector_eq_iff 0 0 _ _).2 heq)
  · intro h
    refine ⟨stripe_bijOn _ _, fun b _ cpu hstripes hsize => ?_, fun mdOffset alOffset i hi j hj heq => ?_⟩
    · exact ⟨_, rfl, alTrNumberToOnDiskSlot_eq hstripes hsize b, fun mdOffset alOffset =>
        alTrNumberToOnDiskSector_eq md mdOffset alOffset b⟩
    · exact h i hi j hj ((sector_eq_iff mdOffset alOffset _ _).1 heq)

/-- A ring of nine blocks, on three stripes. -/
theorem threeStripes_lower : 64 / 8 ≤ 3 * 3 := by decide

theorem threeStripes_upper : 3 * 3 ≤ 16 * 1024 * 1024 / 4 := by decide

def threeStripes : Layout := ⟨3, 3, threeStripes_lower, threeStripes_upper⟩

theorem slotMapping_iff_three :
    (2 ^ 32 - 9 < 2 ^ 32) ∧
      (SlotMapping threeStripes (2 ^ 32 - 9) ↔
        2 ^ 32 - 9 + threeStripes.alSize4k ≤ 2 ^ 32 ∨ threeStripes.alSize4k ∣ 2 ^ 32) :=
  ⟨by decide, slotMapping_iff threeStripes (by decide)⟩

/-- The transactions with the numbers 2^32 - 4 and 0 are stored in one block. -/
theorem slot_reused_at_wrap :
    alTrNumberToOnDiskSector threeStripes 8 8 (2 ^ 32 - 4) = alTrNumberToOnDiskSector threeStripes 8 8 0 ∧
      ¬ SlotMapping threeStripes (2 ^ 32 - 4) := by
  have hsame : alTrNumberToOnDiskSector threeStripes 8 8 (2 ^ 32 - 4) =
      alTrNumberToOnDiskSector threeStripes 8 8 0 := by
    decide
  exact ⟨hsame, fun h => absurd (h.distinct 8 8 0 (by decide) 4 (by decide) hsame) (by decide)⟩

end Drbd.ApplyAl
