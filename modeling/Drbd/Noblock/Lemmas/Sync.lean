import Drbd.Bitmap.Lemmas.Bits
import Drbd.Noblock.Defs

/-!
# Which blocks a request covers

Sectors below the largest capacity give extents that neither wrap nor collide with the free label, so
two requests that share a block share its extent.
-/

namespace Drbd.Noblock

open Lru Bitmap

variable {sector size b x capacity : Nat} {bm : DrbdBitmap}

/-- The request lies on the device. -/
def OnDevice (capacity sector size : Nat) : Prop :=
  sector + size / 512 ≤ capacity ∧ capacity ≤ 2 ^ 42

theorem OnDevice.lastSector_lt (h : OnDevice capacity sector size) : lastSector sector size ≤ 2 ^ 42 := by
  obtain ⟨hend, hcap⟩ := h
  unfold lastSector
  split <;> omega

theorem OnDevice.mem_extents (h : OnDevice capacity sector size) :
    x ∈ extents sector size ↔ sector / 2 ^ 13 ≤ x ∧ x ≤ lastSector sector size / 2 ^ 13 := by
  have hlast := h.lastSector_lt
  have hfirst : sector ≤ 2 ^ 42 := by have := h.1; have := h.2; omega
  simp only [extents, List.mem_range'_1]
  omega

theorem OnDevice.extent_ne_free (h : OnDevice capacity sector size) (hx : x ∈ extents sector size) :
    x ≠ LC_FREE := by
  have hlast := h.lastSector_lt
  have hx' := (h.mem_extents.1 hx).2
  unfold LC_FREE
  omega

theorem mem_blocks (h : b ∈ blocks sector size) :
    size ≠ 0 ∧ bmSectToBit sector ≤ b ∧ b ≤ bmSectToBit (lastSector sector size) := by
  unfold blocks at h
  split at h
  · cases h
  · rename_i hsize
    rw [List.mem_range'_1] at h
    exact ⟨hsize, h.1, by omega⟩

theorem OnDevice.extent_of_block (h : OnDevice capacity sector size) (hb : b ∈ blocks sector size) :
    b / 2 ^ 10 ∈ extents sector size := by
  obtain ⟨_, hlo, hhi⟩ := mem_blocks hb
  rw [h.mem_extents]
  simp only [bmSectToBit] at hlo hhi
  omega

/-! ## Bits -/

@[simp] theorem bmBits_drbdSetOutOfSync :
    (drbdSetOutOfSync capacity bm sector size).bmBits = bm.bmBits := by
  unfold drbdSetOutOfSync
  split
  · rfl
  · split <;> simp

/-- A completed write leaves the bits of all its blocks set. -/
theorem bit_drbdSetOutOfSync_self (hend : sector + size / 512 ≤ capacity) (haligned : size % 512 = 0)
    (hmax : size ≤ DRBD_MAX_DISCARD_SIZE) (hb : b ∈ blocks sector size) (hbits : b < bm.bmBits) :
    (drbdSetOutOfSync capacity bm sector size).bit b = true := by
  obtain ⟨hsize, hlo, hhi⟩ := mem_blocks hb
  unfold drbdSetOutOfSync
  rw [if_neg (by omega), if_neg (by omega), bit_drbdBmSetBits _ _ _ hbits]
  have hes : min (sector + size / 512 - 1) (capacity - 1) = lastSector sector size := by
    unfold lastSector
    rw [if_neg hsize]
    omega
  rw [hes]
  simp [hlo, hhi]

/-- No bit is cleared by setting others. -/
theorem bit_drbdSetOutOfSync_mono (hbits : b < bm.bmBits)
    (h : (drbdSetOutOfSync capacity bm sector size).bit b = false) : bm.bit b = false := by
  unfold drbdSetOutOfSync at h
  split at h
  · exact h
  split at h
  · exact h
  · rw [bit_drbdBmSetBits _ _ _ hbits, Bool.or_eq_false_iff] at h
    exact h.2

/-- Clearing leaves the bitmap alone or clears a range that lies inside the request. -/
theorem drbdSetInSync_cases (capacity : Nat) (bm : DrbdBitmap) (sector size : Nat) :
    drbdSetInSync capacity bm sector size = bm ∨
    ∃ s e, drbdSetInSync capacity bm sector size = (drbdBmClearBits bm s e).1 ∧
      ∀ b, s ≤ b → b ≤ e → b ∈ blocks sector size := by
  by_cases hbad : size = 0 ∨ size % 512 ≠ 0 ∨ DRBD_MAX_DISCARD_SIZE < size
  · exact .inl (by rw [drbdSetInSync, if_pos hbad])
  by_cases hsector : capacity ≤ sector
  · exact .inl (by rw [drbdSetInSync, if_neg hbad, if_pos hsector])
  have hsize : size ≠ 0 := fun h0 => hbad (.inl h0)
  rw [drbdSetInSync, if_neg hbad, if_neg hsector]
  -- `split` takes the inner choice of `ebnr` before the comparison, so name it first
  generalize hes : min (sector + size / 512 - 1) (capacity - 1) = esector
  generalize hend : (if esector = capacity - 1 then bmSectToBit (capacity - 1)
    else bmSectToBit (esector - 7)) = ebnr
  dsimp only
  rw [hend]
  split
  · exact .inl rfl
  split
  · exact .inl rfl
  · refine .inr ⟨_, _, rfl, fun b hlo hhi => ?_⟩
    simp only [blocks, if_neg hsize, List.mem_range'_1, lastSector, bmSectToBit] at *
    split at hend <;> omega

@[simp] theorem bmBits_drbdSetInSync : (drbdSetInSync capacity bm sector size).bmBits = bm.bmBits := by
  rcases drbdSetInSync_cases capacity bm sector size with h | ⟨s, e, h, _⟩
  · rw [h]
  · rw [h, bmBits_drbdBmClearBits]

/-- An ack clears no bit outside its request. -/
theorem bit_drbdSetInSync_of_notMem (hbits : b < bm.bmBits) (hb : b ∉ blocks sector size) :
    (drbdSetInSync capacity bm sector size).bit b = bm.bit b := by
  rcases drbdSetInSync_cases capacity bm sector size with h | ⟨s, e, h, hin⟩
  · rw [h]
  · rw [h, bit_drbdBmClearBits _ _ _ hbits]
    have hout : ¬ (s ≤ b ∧ b ≤ e) := fun hse => hb (hin b hse.1 hse.2)
    rw [decide_eq_false hout]
    simp

end Drbd.Noblock
