import Drbd.Meta.Lemmas.Transfers

/-!
# Where the areas lie
-/

namespace Drbd.Meta

open Lib

variable {md : MdCpu} {size old new : Nat}

/-- The byte offset of the activity log, right before the super block. -/
def alStart (md : MdCpu) (size : Nat) : Int := mdGetByteOffset size - alSizeSect md * 512

/-- The byte offset of the bitmap, right before the activity log. -/
def bmStart (md : MdCpu) (size : Nat) : Int := alStart md size - bmSizeSect size * 512

theorem mdGetByteOffset_eq (h1 : 4096 ≤ size) (h2 : size < 2 ^ 63) :
    mdGetByteOffset size = (size - 4096) / 4096 * 4096 := by
  unfold mdGetByteOffset unsigned
  omega

theorem mdGetByteOffset_of_lt (h : size < 4096) : 2 ^ 63 ≤ mdGetByteOffset size := by
  unfold mdGetByteOffset unsigned
  omega

theorem bmSizeSect_eq (h : size < 2 ^ 63) :
    bmSizeSect size = ((size + 2 ^ 24 - 1) / 2 ^ 24 + 7) / 8 * 8 := by
  unfold bmSizeSect
  omega

theorem signed_eq {n : Int} (h1 : -2 ^ 63 ≤ n) (h2 : n < 2 ^ 63) : signed 64 n = n := by
  unfold signed
  rw [Int.bmod_def]
  split <;> omega

/-- The sector offsets of a valid super block whose activity log fits the buffer. -/
theorem IsValidMd.offsets (h : IsValidMd md size) (hsize : size < 2 ^ 63) (hlo : -65536 ≤ md.alOffset)
    (hhi : md.alOffset ≤ 0) :
    md.alOffset = -alSizeSect md ∧ md.bmOffset = -(alSizeSect md + bmSizeSect size) := by
  obtain ⟨-, hal, hbm, -⟩ := h
  have hb : bmSizeSect size < 2 ^ 62 := by
    rw [bmSizeSect_eq hsize]
    omega
  have hs1 : -2 ^ 31 ≤ alSizeSect md := by
    unfold alSizeSect signed
    rw [Int.bmod_def]
    split <;> omega
  have hs2 : alSizeSect md < 2 ^ 31 := by
    unfold alSizeSect signed
    rw [Int.bmod_def]
    split <;> omega
  have hal' : md.alOffset = -alSizeSect md := by
    rw [hal] at hlo hhi ⊢
    unfold signed at hlo hhi ⊢
    rw [Int.bmod_def] at hlo hhi ⊢
    split at hlo <;> omega
  refine ⟨hal', ?_⟩
  have hsz : (flexMdSizeSect md size : Int) = bmSizeSect size + (mdAlOffset07 + alSizeSect md) := by
    unfold flexMdSizeSect unsigned mdAlOffset07
    omega
  rw [hbm, hsz, signed_eq (by unfold mdAlOffset07; omega) (by unfold mdAlOffset07; omega)]
  omega

/-- Growing the device never brings the bitmap to the first byte: the activity log is too small for
that, unless nothing moves at all. -/
theorem bmStart_pos (hgrow : old < new) (hnew : new < 2 ^ 63) (hold : 4096 ≤ old)
    (hlo : 0 ≤ alSizeSect md) (hhi : alSizeSect md ≤ 65536) (hbm : 0 ≤ bmStart md old)
    (hmove : bmStart md old = 0 → mdGetByteOffset old ≠ mdGetByteOffset new ∨
      bmSizeSect old ≠ bmSizeSect new) : 0 < bmStart md new := by
  unfold bmStart alStart at *
  rw [mdGetByteOffset_eq hold (by omega), bmSizeSect_eq (by omega)] at *
  rw [mdGetByteOffset_eq (by omega) hnew, bmSizeSect_eq hnew] at *
  by_cases hsame : ((old + 2 ^ 24 - 1) / 2 ^ 24 + 7) / 8 = ((new + 2 ^ 24 - 1) / 2 ^ 24 + 7) / 8
  · omega
  · -- the bitmap grew, so the device is larger than 128 MB
    have hlarge : 2 ^ 27 < new := by omega
    omega

end Drbd.Meta
