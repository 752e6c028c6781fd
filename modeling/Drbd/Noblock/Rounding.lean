import Drbd.Bitmap.Lemmas.Flips
import Drbd.Noblock.Defs

/-!
# From sectors to bits

A request is cut to the device. What is out of sync is rounded outwards to blocks, what is in sync
inwards, except at the end of the device, where the last block may be short. The ranges are computed
here in the 64-bit arithmetic of `sector_t` and `unsigned long`.
-/

namespace Drbd.Noblock

open Bitmap

/-- `esector`: the last sector of the request, or of the device. -/
def endSector (capacity sector size : Nat) : Option Nat :=
  let esector := (sector + size / 512 + 2 ^ 64 - 1) % 2 ^ 64
  if capacity ≤ sector then none
  else if esector < capacity then some esector
  else some ((capacity + 2 ^ 64 - 1) % 2 ^ 64)

/-- `sbnr` and `ebnr` of `__drbd_set_out_of_sync`. -/
def outOfSyncRange (capacity sector size : Nat) : Option (Nat × Nat) :=
  (endSector capacity sector size).map fun esector => (bmSectToBit sector, bmSectToBit esector)

/-- `sbnr` and `ebnr` of `__drbd_set_in_sync` and of `drbd_rs_failed_io`. -/
def inSyncRange (capacity sector size : Nat) : Option (Nat × Nat) :=
  (endSector capacity sector size).bind fun esector =>
    let lbnr := bmSectToBit ((capacity + 2 ^ 64 - 1) % 2 ^ 64)
    if esector < 7 then none
    else
      let ebnr := if esector = (capacity + 2 ^ 64 - 1) % 2 ^ 64 then lbnr
        else bmSectToBit ((esector + 2 ^ 64 - 7) % 2 ^ 64)
      let sbnr := bmSectToBit ((sector + 7) % 2 ^ 64)
      if ebnr < sbnr then none else some (sbnr, ebnr)

/-- `drbd_rs_failed_io`: what it adds to `rs_failed`; `none` is the `BUG_ON` of `drbd_bm_count_bits`. -/
def drbdRsFailedIo (capacity : Nat) (b : DrbdBitmap) (sector size : Nat) : Option Nat :=
  if size = 0 ∨ size % 512 ≠ 0 ∨ DRBD_MAX_DISCARD_SIZE < size then some 0
  else match inSyncRange capacity sector size with
    | none => some 0
    | some (sbnr, ebnr) => drbdBmCountBits b sbnr ebnr

/-- Block `i` is in the device, and each of its sectors there is in the request. -/
def Covered (capacity sector size i : Nat) : Prop :=
  8 * i < capacity ∧ ∀ s, 8 * i ≤ s → s < 8 * i + 8 → s < capacity → sector ≤ s ∧ s < sector + size / 512

/-- Block `i` has a sector in the device that is in the request. -/
def Touched (capacity sector size i : Nat) : Prop :=
  ∃ s, 8 * i ≤ s ∧ s < 8 * i + 8 ∧ s < capacity ∧ sector ≤ s ∧ s < sector + size / 512

variable {capacity sector size : Nat} {b : DrbdBitmap}

theorem endSector_eq (hcap : capacity ≤ 2 ^ 51) (hpos : 512 ≤ size) (hmax : size ≤ DRBD_MAX_DISCARD_SIZE) :
    endSector capacity sector size
      = if capacity ≤ sector then none else some (min (sector + size / 512 - 1) (capacity - 1)) := by
  unfold DRBD_MAX_DISCARD_SIZE at hmax
  have hlen : size / 512 ≤ 2 ^ 13 := Nat.div_le_of_le_mul hmax
  have hone : 1 ≤ size / 512 := (Nat.le_div_iff_mul_le (by decide)).2 hpos
  unfold endSector
  dsimp only
  split
  · rfl
  · split
    · exact congrArg some (by omega)
    · exact congrArg some (by omega)

/-- Rounding out reaches exactly the blocks the request meets. -/
theorem outOfSyncRange_iff (hcap : capacity ≤ 2 ^ 51) (hpos : 512 ≤ size)
    (hmax : size ≤ DRBD_MAX_DISCARD_SIZE) (i : Nat) :
    (∃ sbnr ebnr, outOfSyncRange capacity sector size = some (sbnr, ebnr) ∧ sbnr ≤ i ∧ i ≤ ebnr) ↔
      Touched capacity sector size i := by
  have hone : 1 ≤ size / 512 := (Nat.le_div_iff_mul_le (by decide)).2 hpos
  unfold outOfSyncRange Touched bmSectToBit
  rw [endSector_eq hcap hpos hmax]
  split
  · constructor
    · rintro ⟨_, _, h, _⟩
      cases h
    · rintro ⟨s, _⟩
      omega
  · constructor
    · rintro ⟨_, _, h, hlo, hhi⟩
      cases h
      exact ⟨max (8 * i) sector, by omega, by omega, by omega, by omega, by omega⟩
    · rintro ⟨s, _⟩
      exact ⟨_, _, rfl, by omega, by omega⟩

theorem inSyncRange_eq (hcap : capacity ≤ 2 ^ 51) (hpos : 512 ≤ size)
    (hmax : size ≤ DRBD_MAX_DISCARD_SIZE) :
    inSyncRange capacity sector size =
      if capacity ≤ sector then none
      else
        let esector := min (sector + size / 512 - 1) (capacity - 1)
        if esector < 7 then none
        else
          let ebnr := if esector = capacity - 1 then bmSectToBit (capacity - 1) else bmSectToBit (esector - 7)
          if ebnr < bmSectToBit (sector + 7) then none else some (bmSectToBit (sector + 7), ebnr) := by
  unfold inSyncRange
  rw [endSector_eq hcap hpos hmax]
  split
  · rfl
  rename_i hin
  rw [Option.bind_some]
  dsimp only
  generalize hes : min (sector + size / 512 - 1) (capacity - 1) = esector
  have hlast : (capacity + 2 ^ 64 - 1) % 2 ^ 64 = capacity - 1 := by omega
  have hstart : (sector + 7) % 2 ^ 64 = sector + 7 := by omega
  rw [hlast, hstart]
  split
  · rfl
  · have hend : (esector + 2 ^ 64 - 7) % 2 ^ 64 = esector - 7 := by omega
    rw [hend]

/-- Rounding in reaches exactly the blocks that are covered, on a device of at least one block. -/
theorem inSyncRange_iff (hcap : capacity ≤ 2 ^ 51) (hpos : 512 ≤ size)
    (hmax : size ≤ DRBD_MAX_DISCARD_SIZE) (i : Nat) :
    (∃ sbnr ebnr, inSyncRange capacity sector size = some (sbnr, ebnr) ∧ sbnr ≤ i ∧ i ≤ ebnr) ↔
      8 ≤ capacity ∧ Covered capacity sector size i := by
  have hone : 1 ≤ size / 512 := (Nat.le_div_iff_mul_le (by decide)).2 hpos
  rw [inSyncRange_eq hcap hpos hmax]
  unfold bmSectToBit Covered
  generalize size / 512 = n at hone ⊢
  constructor
  · rintro ⟨sbnr, ebnr, h, hlo, hhi⟩
    split at h
    · cases h
    dsimp only at h
    split at h
    · cases h
    generalize hend : (if _ = capacity - 1 then _ else _ : Nat) = last at h
    split at h
    · cases h
    cases h
    refine ⟨by omega, ?_⟩
    split at hend
    · exact ⟨by omega, fun s _ _ _ => by omega⟩
    · exact ⟨by omega, fun s _ _ _ => by omega⟩
  · rintro ⟨hbig, hin, hall⟩
    have hfirst := hall (8 * i) (le_refl _) (by omega) hin
    have hlast := hall (min (8 * i + 7) (capacity - 1)) (by omega) (by omega) (by omega)
    rw [if_neg (by omega)]
    dsimp only
    rw [if_neg (by omega)]
    by_cases hend : min (sector + n - 1) (capacity - 1) = capacity - 1
    · rw [if_pos hend, if_neg (by omega)]
      exact ⟨_, _, rfl, by omega, by omega⟩
    · rw [if_neg hend, if_neg (by omega)]
      exact ⟨_, _, rfl, by omega, by omega⟩

theorem inSyncRange_le (hcap : capacity ≤ 2 ^ 51) (hpos : 512 ≤ size)
    (hmax : size ≤ DRBD_MAX_DISCARD_SIZE) {sbnr ebnr : Nat}
    (h : inSyncRange capacity sector size = some (sbnr, ebnr)) :
    sbnr ≤ ebnr ∧ ebnr ≤ bmSectToBit (capacity - 1) ∧ sector < capacity := by
  rw [inSyncRange_eq hcap hpos hmax] at h
  split at h
  · cases h
  dsimp only at h
  split at h
  · cases h
  generalize hend : (if _ = capacity - 1 then _ else _ : Nat) = last at h
  split at h
  · cases h
  cases h
  rename_i hin _ hle
  refine ⟨by omega, ?_, by omega⟩
  unfold bmSectToBit at hend ⊢
  split at hend <;> omega

theorem drbdSetInSync_eq (b : DrbdBitmap) (hcap : capacity ≤ 2 ^ 51) (hpos : 0 < size)
    (haligned : size % 512 = 0) (hmax : size ≤ DRBD_MAX_DISCARD_SIZE) :
    drbdSetInSync capacity b sector size = match inSyncRange capacity sector size with
      | none => b
      | some (sbnr, ebnr) => (drbdBmClearBits b sbnr ebnr).1 := by
  rw [inSyncRange_eq hcap (by omega) hmax, drbdSetInSync, if_neg (by omega)]
  dsimp only
  split
  · rfl
  split
  · rfl
  generalize (if _ = capacity - 1 then _ else _ : Nat) = last
  split <;> rfl

theorem drbdSetOutOfSync_eq (b : DrbdBitmap) (hcap : capacity ≤ 2 ^ 51) (hpos : 0 < size)
    (haligned : size % 512 = 0) (hmax : size ≤ DRBD_MAX_DISCARD_SIZE) :
    drbdSetOutOfSync capacity b sector size = match outOfSyncRange capacity sector size with
      | none => b
      | some (sbnr, ebnr) => (drbdBmSetBits b sbnr ebnr).1 := by
  rw [outOfSyncRange, endSector_eq hcap (by omega) hmax, drbdSetOutOfSync, if_neg (by omega)]
  split <;> rfl

theorem bit_drbdSetInSync (hcap : capacity ≤ 2 ^ 51) (hpos : 0 < size) (haligned : size % 512 = 0)
    (hmax : size ≤ DRBD_MAX_DISCARD_SIZE) {i : Nat} (hi : i < b.bmBits) :
    (drbdSetInSync capacity b sector size).bit i = true ↔
      b.bit i = true ∧ ¬ (8 ≤ capacity ∧ Covered capacity sector size i) := by
  rw [← inSyncRange_iff hcap (by omega) hmax, drbdSetInSync_eq b hcap hpos haligned hmax]
  cases inSyncRange capacity sector size with
  | none => simp
  | some r =>
      rw [bit_drbdBmClearBits b _ _ hi]
      simp only [Bool.and_eq_true, Bool.not_eq_true', decide_eq_false_iff_not, Option.some.injEq]
      constructor
      · rintro ⟨hout, hset⟩
        refine ⟨hset, ?_⟩
        rintro ⟨_, _, rfl, hin⟩
        exact hout hin
      · rintro ⟨hset, hout⟩
        exact ⟨fun hin => hout ⟨r.1, r.2, rfl, hin⟩, hset⟩

theorem bit_drbdSetOutOfSync (hcap : capacity ≤ 2 ^ 51) (hpos : 0 < size) (haligned : size % 512 = 0)
    (hmax : size ≤ DRBD_MAX_DISCARD_SIZE) {i : Nat} (hi : i < b.bmBits) :
    (drbdSetOutOfSync capacity b sector size).bit i = true ↔
      b.bit i = true ∨ Touched capacity sector size i := by
  rw [← outOfSyncRange_iff hcap (by omega) hmax, drbdSetOutOfSync_eq b hcap hpos haligned hmax]
  cases outOfSyncRange capacity sector size with
  | none => simp
  | some r =>
      rw [bit_drbdBmSetBits b _ _ hi]
      simp only [Bool.or_eq_true, decide_eq_true_eq, Option.some.injEq]
      constructor
      · rintro (hin | hset)
        · exact .inr ⟨r.1, r.2, rfl, hin⟩
        · exact .inl hset
      · rintro (hset | ⟨_, _, rfl, hin⟩)
        · exact .inr hset
        · exact .inl hin

theorem drbdRsFailedIo_eq (hcap : capacity ≤ 2 ^ 51) (hpos : 0 < size) (haligned : size % 512 = 0)
    (hmax : size ≤ DRBD_MAX_DISCARD_SIZE) (hcover : capacity ≤ 8 * b.bmBits) :
    drbdRsFailedIo capacity b sector size = some ((List.range b.bmBits).countP fun i =>
      b.bit i && !(drbdSetInSync capacity b sector size).bit i) := by
  unfold drbdRsFailedIo
  rw [if_neg (by omega), drbdSetInSync_eq b hcap hpos haligned hmax]
  cases hr : inSyncRange capacity sector size with
  | none => simp
  | some r =>
      obtain ⟨sbnr, ebnr⟩ := r
      obtain ⟨_, hle, hin⟩ := inSyncRange_le hcap (by omega) hmax hr
      have hebnr : ebnr < b.bmBits := by
        unfold bmSectToBit at hle
        omega
      have hpage : ebnr / bitsPerPage < b.bmNumberOfPages := by
        unfold DrbdBitmap.bmNumberOfPages DrbdBitmap.bmWords bitsPerPage
        omega
      dsimp only
      rw [drbdBmCountBits, if_neg (by omega), countP_range' _ hebnr]
      refine congrArg some (List.countP_congr fun i hi => ?_)
      have hi := List.mem_range.1 hi
      rw [bit_drbdBmClearBits b _ _ hi, decide_eq_true hi]
      cases b.bit i <;> simp

/-- In-sync rounding is safe and, on a device of at least one block, complete; out-of-sync rounding is exact;
a failed request counts what would have been cleared; and the ranges end in the device. -/
theorem sync_rounding_exact (b : DrbdBitmap) (capacity sector size : Nat) (hcap : capacity ≤ 2 ^ 51)
    (hpos : 0 < size) (haligned : size % 512 = 0) (hmax : size ≤ DRBD_MAX_DISCARD_SIZE)
    (hcover : capacity ≤ 8 * b.bmBits) :
    (∀ i < b.bmBits, (drbdSetInSync capacity b sector size).bit i = true ↔
      b.bit i = true ∧ ¬ (8 ≤ capacity ∧ Covered capacity sector size i)) ∧
    (∀ i < b.bmBits, (drbdSetOutOfSync capacity b sector size).bit i = true ↔
      b.bit i = true ∨ Touched capacity sector size i) ∧
    drbdRsFailedIo capacity b sector size = some ((List.range b.bmBits).countP fun i =>
      b.bit i && !(drbdSetInSync capacity b sector size).bit i) ∧
    endSector capacity sector size = (if capacity ≤ sector then none
      else some (min (sector + size / 512 - 1) (capacity - 1))) ∧
    (drbdSetInSync capacity b sector size = match inSyncRange capacity sector size with
      | none => b
      | some (sbnr, ebnr) => (drbdBmClearBits b sbnr ebnr).1) ∧
    ∀ sbnr ebnr, inSyncRange capacity sector size = some (sbnr, ebnr) →
      sbnr ≤ ebnr ∧ ebnr ≤ bmSectToBit (capacity - 1) ∧ sector < capacity :=
  ⟨fun _ hi => bit_drbdSetInSync hcap hpos haligned hmax hi,
    fun _ hi => bit_drbdSetOutOfSync hcap hpos haligned hmax hi,
    drbdRsFailedIo_eq hcap hpos haligned hmax hcover, endSector_eq hcap (by omega) hmax,
    drbdSetInSync_eq b hcap hpos haligned hmax, fun _ _ => inSyncRange_le hcap (by omega) hmax⟩

/-- Two blocks out of three sectors more, on a device of 16 MiB. -/
theorem sync_rounding_exact_two_blocks :
    drbdRsFailedIo 32768 ⟨4096, 4096, fun _ => BitVec.allOnes 64, fun _ => false, fun _ => false⟩ 5 9728
      = some ((List.range 4096).countP fun i =>
        (⟨4096, 4096, fun _ => BitVec.allOnes 64, fun _ => false, fun _ => false⟩ : DrbdBitmap).bit i &&
        !(drbdSetInSync 32768 ⟨4096, 4096, fun _ => BitVec.allOnes 64, fun _ => false, fun _ => false⟩ 5
          9728).bit i) :=
  (sync_rounding_exact ⟨4096, 4096, fun _ => BitVec.allOnes 64, fun _ => false, fun _ => false⟩ 32768 5 9728
    (by decide) (by decide) (by decide) (by decide) (by decide)).2.2.1

/-- The edge of the function's domain, which no device of this fork reaches: `drbd_set_my_capacity` cuts every
capacity to a multiple of 32768 sectors. All of five sectors is in sync, and the only bit stays set. -/
theorem sync_rounding_tiny_device :
    Covered 5 0 2560 0 ∧
    (drbdSetInSync 5 ⟨1, 1, fun _ => 1, fun _ => false, fun _ => false⟩ 0 2560).bit 0 = true := by
  refine ⟨⟨by decide, fun s _ _ hs => ⟨Nat.zero_le _, hs⟩⟩, by decide⟩

end Drbd.Noblock
