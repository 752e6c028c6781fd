import Drbd.Layout.Defs

/-!
# What an accepted super block describes
-/

namespace Drbd.Layout

open Lib

variable {dev : Devices} {md : DrbdMd} {buf : Nat → UInt8}

/-- The ranges of the members of `struct drbd_md` after the striping of the activity log was checked. -/
structure InCore (dev : Devices) (md : DrbdMd) : Prop where
  mdOffset : md.mdOffset = mdSs dev
  laSizeSect : md.laSizeSect < 2 ^ 64
  mdSizeSect : md.mdSizeSect < 2 ^ 32
  le_alOffset : -2 ^ 31 ≤ md.alOffset
  alOffset_lt : md.alOffset < 2 ^ 31
  le_bmOffset : -2 ^ 31 ≤ md.bmOffset
  bmOffset_lt : md.bmOffset < 2 ^ 31
  le_alSize4k : 8 ≤ md.alSize4k
  alSize4k_le : md.alSize4k ≤ 2 ^ 22

theorem checkActivityLogStripeSize_some {stripes stripeSize4k a b c : Nat}
    (h : checkActivityLogStripeSize stripes stripeSize4k = some (a, b, c)) : 8 ≤ c ∧ c ≤ 2 ^ 22 := by
  unfold checkActivityLogStripeSize at h
  dsimp only at h
  generalize (if stripes = 0 ∧ stripeSize4k = 0 then (1, md32kbSect / 8) else (stripes, stripeSize4k)) = p at h
  obtain ⟨x, y⟩ := p
  rw [show md32kbSect / 8 = 8 from rfl] at h
  split at h
  · simp at h
  · split at h
    · simp at h
    · split at h
      · simp at h
      · simp only [Option.some.injEq, Prod.mk.injEq] at h
        obtain ⟨-, -, rfl⟩ := h
        dsimp only at *
        omega

theorem inCore_of_inCoreMd (h : inCoreMd buf dev = some md) : InCore dev md := by
  simp only [inCoreMd, Option.bind_eq_bind, Option.bind_eq_some_iff, Option.some.injEq] at h
  obtain ⟨⟨stripes, stripeSize4k, size4k⟩, hstripes, rfl⟩ := h
  obtain ⟨h8, h22⟩ := checkActivityLogStripeSize_some hstripes
  have hla := beNat_lt buf 0 8
  have hsize := beNat_lt buf 64 4
  rw [show 256 ^ 8 = 2 ^ 64 by decide] at hla
  rw [show 256 ^ 4 = 2 ^ 32 by decide] at hsize
  constructor <;> dsimp only
  · exact hla
  · exact hsize
  · exact le_signed 31 _
  · exact signed_lt 31 _
  · exact le_signed 31 _
  · exact signed_lt 31 _
  · exact h8
  · exact h22

/-! ## What the checks say -/

theorem checkOffsetsAndSizes_of_none (h : onDiskSects md = none) : checkOffsetsAndSizes dev md = false := by
  simp [checkOffsetsAndSizes, h]

theorem checkOffsetsAndSizes_of_some {alSect bmSect : Int} (h : onDiskSects md = some (alSect, bmSect)) :
    checkOffsetsAndSizes dev md = true ↔ SizesFit dev md alSect bmSect := by
  simp [checkOffsetsAndSizes, h]

/-- The last check, for a number of bitmap sectors that an `s32` holds. -/
theorem need_le_iff {bmSect : Int} (h0 : 0 ≤ bmSect) (h31 : bmSect < 2 ^ 31) :
    (md.laSizeSect + 7) % 2 ^ 64 / md4kbSect / 8 / 512 ≤ unsigned 64 bmSect ↔
      (((md.laSizeSect + 7) % 2 ^ 64 / 2 ^ 15 : Nat) : Int) ≤ bmSect := by
  have hu : (unsigned 64 bmSect : Int) = bmSect := unsigned_eq_self h0 (by omega)
  rw [md4kbSect, Nat.div_div_eq_div_mul, Nat.div_div_eq_div_mul]
  omega

theorem InCore.unsigned_alSize (h : InCore dev md) : unsigned 32 (md.alSize4k * md4kbSect) = md.alSize4k * 8 := by
  have h22 := h.alSize4k_le
  have hu : (unsigned 32 (md.alSize4k * md4kbSect) : Int) = md.alSize4k * 8 := by
    unfold md4kbSect
    exact unsigned_eq_self (by omega) (by omega)
  omega

/-- An activity log that comes before the super block. -/
theorem InCore.check_internal (h : InCore dev md) (hal : md.alOffset < 0) (hc : checkOffsetsAndSizes dev md = true) :
    md.bmOffset ≤ md.alOffset ∧ -md.alOffset = md.alSize4k * 8 ∧
      (((md.laSizeSect + 7) % 2 ^ 64 / 2 ^ 15 : Nat) : Int) ≤ md.alOffset - md.bmOffset ∧
      (¬ ∃ i, dev.idx = .index i) ∧ md.mdSizeSect ≤ dev.md ∧ mdFirstSector dev md ≤ dev.md - md.mdSizeSect := by
  have hle := h.le_alOffset
  have hbm := h.le_bmOffset
  by_cases hord : md.bmOffset > md.alOffset
  · rw [checkOffsetsAndSizes_of_none (by simp [onDiskSects, hal, hord])] at hc
    simp at hc
  · have hsects : onDiskSects md = some (signed 32 (-md.alOffset), md.alOffset - md.bmOffset) := by
      have hs : signed 32 (md.alOffset - md.bmOffset) = md.alOffset - md.bmOffset :=
        signed_eq_self (by omega) (by omega)
      simp [onDiskSects, hal, hord, hs]
    obtain ⟨hfix, hsize, hfirst, -, h64, heq, -, hneed⟩ := (checkOffsetsAndSizes_of_some hsects).mp hc
    rw [need_le_iff (by omega) (by omega)] at hneed
    rw [h.unsigned_alSize] at heq
    refine ⟨by omega, ?_, hneed, fun hi => ?_, hsize, hfirst⟩
    · -- the negation overflows for the least number only, and then the size is negative
      by_cases hmin : md.alOffset = -2 ^ 31
      · rw [hmin, show signed 32 (-(-2 ^ 31)) = -2 ^ 31 by decide] at h64
        simp only [md32kbSect] at h64
        omega
      · have hs : signed 32 (-md.alOffset) = -md.alOffset := signed_eq_self (by omega) (by omega)
        have hu : (unsigned 32 (-md.alOffset) : Int) = -md.alOffset := unsigned_eq_self (by omega) (by omega)
        rw [hs] at heq
        omega
    · have := (hfix hi).2.1
      simp only [md4kbSect] at this
      omega

/-- One that comes after it. -/
theorem InCore.check_external (h : InCore dev md) (hal : ¬ md.alOffset < 0)
    (hc : checkOffsetsAndSizes dev md = true) :
    md.alOffset = 8 ∧ md.bmOffset = 8 + md.alSize4k * 8 ∧
      (0 ≤ md.mdSizeSect - md.bmOffset → md.mdSizeSect - md.bmOffset < 2 ^ 31 →
        (((md.laSizeSect + 7) % 2 ^ 64 / 2 ^ 15 : Nat) : Int) ≤ md.mdSizeSect - md.bmOffset) ∧
      ((∃ i, dev.idx = .index i) → FixedSize md) ∧ md.mdSizeSect ≤ dev.md ∧
      mdFirstSector dev md ≤ dev.md - md.mdSizeSect := by
  have hle := h.le_bmOffset
  have hlt := h.bmOffset_lt
  have h8 := h.le_alSize4k
  have h22 := h.alSize4k_le
  by_cases h4k : md.alOffset = md4kbSect
  · by_cases hord : unsigned 32 md.bmOffset < unsigned 32 (md.alOffset + md.alSize4k * md4kbSect)
    · rw [checkOffsetsAndSizes_of_none
        (by simp only [onDiskSects, if_neg hal, if_neg (not_not_intro h4k), if_pos hord])] at hc
      simp at hc
    · have hsects : onDiskSects md =
          some (signed 32 (md.bmOffset - md4kbSect), signed 32 (md.mdSizeSect - md.bmOffset)) := by
        simp only [onDiskSects, if_neg hal, if_neg (not_not_intro h4k), if_neg hord]
      obtain ⟨hfix, hsize, hfirst, -, h64, heq, -, hneed⟩ := (checkOffsetsAndSizes_of_some hsects).mp hc
      rw [h.unsigned_alSize] at heq
      have hbm : md.bmOffset = 8 + md.alSize4k * 8 := by
        simp only [md4kbSect, md32kbSect] at heq h64
        by_cases hlow : -2 ^ 31 + 8 ≤ md.bmOffset
        · have hs : signed 32 (md.bmOffset - (8 : Nat)) = md.bmOffset - 8 := signed_eq_self (by omega) (by omega)
          rw [hs] at heq h64
          have hu : (unsigned 32 (md.bmOffset - 8) : Int) = md.bmOffset - 8 :=
            unsigned_eq_self (by omega) (by omega)
          omega
        · -- the subtraction wraps around
          have hs : signed 32 (md.bmOffset - (8 : Nat)) = md.bmOffset - 8 + 2 ^ 32 := by
            have h32 : signed 32 (md.bmOffset - (8 : Nat)) = signed 32 (md.bmOffset - 8 + 2 ^ 32) := by
              unfold signed
              exact (Int.add_bmod_right _ _).symm
            rw [h32]
            exact signed_eq_self (by omega) (by omega)
          rw [hs] at heq
          have hu : (unsigned 32 (md.bmOffset - 8 + 2 ^ 32) : Int) = md.bmOffset - 8 + 2 ^ 32 :=
            unsigned_eq_self (by omega) (by omega)
          omega
      refine ⟨h4k, hbm, fun h0 h31 => ?_, hfix, hsize, hfirst⟩
      have hs : signed 32 (md.mdSizeSect - md.bmOffset) = md.mdSizeSect - md.bmOffset :=
        signed_eq_self (by omega) (by omega)
      rw [hs, need_le_iff h0 h31] at hneed
      exact hneed
  · rw [checkOffsetsAndSizes_of_none (by simp only [onDiskSects, if_neg hal, if_pos h4k])] at hc
    simp at hc

theorem mdSs_internal (hidx : dev.idx.IsInternal) : mdSs dev = unsigned 64 ((dev.backing / 8 * 8 : Nat) - 8) := by
  unfold mdSs
  cases hi : dev.idx <;> simp_all [MetaDevIdx.IsInternal]

theorem mdSs_of_lt (hidx : dev.idx.IsInternal) (h : dev.backing < 8) : (mdSs dev : Int) = 2 ^ 64 - 8 := by
  rw [mdSs_internal hidx, Nat.div_eq_of_lt h]
  decide

theorem mdSs_of_le (hidx : dev.idx.IsInternal) (h : 8 ≤ dev.backing) :
    (mdSs dev : Int) = (dev.backing / 8 * 8 : Nat) - 8 := by
  have hcap := dev.backing_lt
  rw [mdSs_internal hidx]
  exact unsigned_eq_self (by omega) (by omega)

/-- Internal meta data has its activity log before the super block: behind it there is no room. -/
theorem InCore.alOffset_of_internal (h : InCore dev md) (hidx : dev.idx.IsInternal)
    (hc : checkOffsetsAndSizes dev md = true) : md.alOffset < 0 := by
  by_contra hal
  obtain ⟨-, hbm, -, -, -, hfirst⟩ := h.check_external hal hc
  have h8 := h.le_alSize4k
  have h22 := h.alSize4k_le
  have hcap := dev.backing_lt
  have hsame := dev.same hidx
  rw [mdFirstSector, if_pos hidx, h.mdOffset] at hfirst
  by_cases hsmall : dev.backing < 8
  · have hf : (unsigned 64 (2 ^ 64 - 8 + md.bmOffset) : Int) = md.bmOffset - 8 := by
      have hmod : (2 ^ 64 - 8 + md.bmOffset) % 2 ^ 64 = md.bmOffset - 8 := by omega
      unfold unsigned
      rw [hmod]
      omega
    rw [mdSs_of_lt hidx hsmall] at hfirst
    omega
  · have hf : (unsigned 64 ((dev.backing / 8 * 8 : Nat) - 8 + md.bmOffset) : Int) =
        (dev.backing / 8 * 8 : Nat) - 8 + md.bmOffset := unsigned_eq_self (by omega) (by omega)
    rw [mdSs_of_le hidx (by omega)] at hfirst
    omega

/-- Internal meta data ends with the last 4 KiB block of the device and does not start before it. -/
theorem InCore.internal_fits (h : InCore dev md) (hidx : dev.idx.IsInternal)
    (hc : checkOffsetsAndSizes dev md = true) : 0 ≤ md.mdOffset + md.bmOffset ∧ md.mdOffset + 8 ≤ dev.md := by
  have hal := h.alOffset_of_internal hidx hc
  obtain ⟨hord, -, -, -, -, hfirst⟩ := h.check_internal hal hc
  have hle := h.le_bmOffset
  have hcap := dev.backing_lt
  have hsame := dev.same hidx
  rw [mdFirstSector, if_pos hidx, h.mdOffset] at hfirst
  rw [h.mdOffset]
  by_cases hsmall : dev.backing < 8
  · have hf : (unsigned 64 (2 ^ 64 - 8 + md.bmOffset) : Int) = 2 ^ 64 - 8 + md.bmOffset :=
      unsigned_eq_self (by omega) (by omega)
    rw [mdSs_of_lt hidx hsmall] at hfirst
    omega
  · have hss := mdSs_of_le hidx (Nat.le_of_not_lt hsmall)
    rw [hss] at hfirst
    refine ⟨?_, by omega⟩
    by_contra hneg
    have hf : (unsigned 64 ((dev.backing / 8 * 8 : Nat) - 8 + md.bmOffset) : Int) =
        (dev.backing / 8 * 8 : Nat) - 8 + md.bmOffset + 2 ^ 64 := by
      have hmod : ((dev.backing / 8 * 8 : Nat) - 8 + md.bmOffset) % 2 ^ 64 =
          (dev.backing / 8 * 8 : Nat) - 8 + md.bmOffset + 2 ^ 64 := by omega
      unfold unsigned
      rw [hmod]
      omega
    omega

/-! ## Which super blocks slip through -/

/-- The need of the last agreed size is rounded down: of a last 16 MB that is not complete, the bitmap
sector is not asked for. -/
def PartialExtent (md : DrbdMd) : Prop := md.laSizeSect % 2 ^ 15 ≠ 0 ∧ (md.laSizeSect / 2 ^ 15 : Nat) = md.bmSectors

/-- Flexible external meta data whose activity log would be in front of the device, whose bitmap would
end before it starts, or whose bitmap has more sectors than an `s32` holds. -/
def BadExternal (md : DrbdMd) : Prop :=
  md.alOffset < 0 ∨ md.mdSizeSect < md.bmOffset ∨
    (2 ^ 31 ≤ md.mdSizeSect - md.bmOffset ∧ (md.mdSizeSect - md.bmOffset) * 2 ^ 15 < md.laSizeSect)

/-- The super blocks that are accepted by mistake; adding 7 to the size wraps around for the largest. -/
def Misjudged (dev : Devices) (md : DrbdMd) : Prop :=
  PartialExtent md ∨ 2 ^ 64 - 7 ≤ md.laSizeSect ∨ (dev.idx = .flexExt ∧ BadExternal md)

theorem covers_iff (hnn : 0 ≤ md.bmSectors) :
    md.Covers md.laSizeSect ↔ (md.laSizeSect : Int) ≤ md.bmSectors * 2 ^ 15 := by
  constructor
  · intro h
    by_contra hlt
    have hblock := h (md.bmSectors * 4096).toNat (by omega)
    omega
  · intro h block hb
    omega

/-- The check is right but for the rounding and the overflow. -/
theorem covers_iff_of_need (hnn : 0 ≤ md.bmSectors) (hlt : md.bmSectors < 2 ^ 32) (hla : md.laSizeSect < 2 ^ 64)
    (h : (((md.laSizeSect + 7) % 2 ^ 64 / 2 ^ 15 : Nat) : Int) ≤ md.bmSectors) :
    md.Covers md.laSizeSect ↔ ¬ (PartialExtent md ∨ 2 ^ 64 - 7 ≤ md.laSizeSect) := by
  rw [covers_iff hnn]
  unfold PartialExtent
  by_cases hbig : 2 ^ 64 - 7 ≤ md.laSizeSect
  · simp only [hbig, or_true, not_true_eq_false, iff_false]
    omega
  · rw [Nat.mod_eq_of_lt (by omega)] at h
    simp only [hbig, or_false]
    omega

theorem InCore.usable_internal (h : InCore dev md) (hidx : dev.idx.IsInternal)
    (hc : checkOffsetsAndSizes dev md = true) : Usable dev md ↔ md.Covers md.laSizeSect := by
  have hal := h.alOffset_of_internal hidx hc
  obtain ⟨hord, hsize, -, -, -, -⟩ := h.check_internal hal hc
  obtain ⟨hstart, hend⟩ := h.internal_fits hidx hc
  refine ⟨fun hu => hu.covers, fun hcov => ?_⟩
  constructor
  all_goals try simp only [Region.Inside, Region.Disjoint, DrbdMd.superBlock, DrbdMd.activityLog, DrbdMd.bitmap,
    DrbdMd.bmSectors, if_pos hal, md4kbSect]
  · omega
  · omega
  · omega
  · omega
  · omega
  · omega
  · exact hcov

theorem InCore.usable_external (h : InCore dev md) (hal : ¬ md.alOffset < 0) (hidx : ¬ dev.idx.IsInternal)
    (hc : checkOffsetsAndSizes dev md = true) :
    Usable dev md ↔ md.bmOffset ≤ md.mdSizeSect ∧ md.Covers md.laSizeSect := by
  obtain ⟨h8, hbm, -, -, hsize, hfirst⟩ := h.check_external hal hc
  rw [mdFirstSector, if_neg hidx] at hfirst
  constructor
  · intro hu
    have hin := hu.bitmap.2.1
    simp only [DrbdMd.bitmap, DrbdMd.bmSectors, if_neg hal] at hin
    exact ⟨by omega, hu.covers⟩
  · rintro ⟨hle, hcov⟩
    constructor
    all_goals try simp only [Region.Inside, Region.Disjoint, DrbdMd.superBlock, DrbdMd.activityLog, DrbdMd.bitmap,
      DrbdMd.bmSectors, if_neg hal, md4kbSect]
    · omega
    · omega
    · omega
    · omega
    · omega
    · omega
    · exact hcov

theorem InCore.usable_flexExt (h : InCore dev md) (hidx : dev.idx = .flexExt)
    (hc : checkOffsetsAndSizes dev md = true) : Usable dev md ↔ ¬ Misjudged dev md := by
  have hni : ¬ dev.idx.IsInternal := by simp [hidx, MetaDevIdx.IsInternal]
  have hlt := h.mdSizeSect
  have hbm := h.le_bmOffset
  simp only [Misjudged, hidx, true_and]
  by_cases hal : md.alOffset < 0
  · have hbad : BadExternal md := .inl hal
    simp only [hbad, or_true, not_true_eq_false, iff_false]
    intro hu
    have hstart := hu.activityLog.1
    simp only [DrbdMd.activityLog, h.mdOffset, mdSs, hidx] at hstart
    omega
  · rw [h.usable_external hal hni hc]
    have hsect : md.bmSectors = md.mdSizeSect - md.bmOffset := if_neg hal
    by_cases hle : md.bmOffset ≤ md.mdSizeSect
    · have hnn : 0 ≤ md.bmSectors := by omega
      by_cases h31 : md.mdSizeSect - md.bmOffset < 2 ^ 31
      · have hbad : ¬ BadExternal md := by
          unfold BadExternal
          omega
        have hneed := (h.check_external hal hc).2.2.1 (by omega) h31
        rw [← hsect] at hneed
        simp only [hle, true_and, hbad, or_false]
        exact covers_iff_of_need hnn (by omega) h.laSizeSect hneed
      · have h8 := (h.check_external hal hc).2.1
        rw [covers_iff hnn]
        unfold PartialExtent BadExternal
        omega
    · have hbad : BadExternal md := .inr (.inl (by omega))
      simp only [hle, false_and, hbad, or_true, not_true_eq_false]

theorem InCore.usable_index {i : Fin (2 ^ 31)} (h : InCore dev md) (hidx : dev.idx = .index i)
    (hc : checkOffsetsAndSizes dev md = true) : Usable dev md ↔ ¬ Misjudged dev md := by
  have hni : ¬ dev.idx.IsInternal := by simp [hidx, MetaDevIdx.IsInternal]
  have hal : ¬ md.alOffset < 0 := fun hal => (h.check_internal hal hc).2.2.2.1 ⟨i, hidx⟩
  obtain ⟨-, -, hneed, hfix, -, -⟩ := h.check_external hal hc
  obtain ⟨hsize, -, hbm, -, -⟩ := hfix ⟨i, hidx⟩
  simp only [md128MbSect, md4kbSect, md32kbSect] at hsize hbm
  have hsect : md.bmSectors = md.mdSizeSect - md.bmOffset := if_neg hal
  have hneed := hneed (by omega) (by omega)
  rw [← hsect] at hneed
  have hne : dev.idx ≠ .flexExt := by simp [hidx]
  simp only [h.usable_external hal hni hc, Misjudged, hne, false_and, or_false]
  rw [covers_iff_of_need (by omega) (by omega) h.laSizeSect hneed]
  exact and_iff_right (by omega)

theorem InCore.usable_iff (h : InCore dev md) (hc : checkOffsetsAndSizes dev md = true) :
    Usable dev md ↔ ¬ Misjudged dev md := by
  by_cases hidx : dev.idx.IsInternal
  · have hal := h.alOffset_of_internal hidx hc
    obtain ⟨hord, -, hneed, -, -, -⟩ := h.check_internal hal hc
    have hsect : md.bmSectors = md.alOffset - md.bmOffset := if_pos hal
    have hbm := h.le_bmOffset
    rw [← hsect] at hneed
    have hne : dev.idx ≠ .flexExt := fun he => by simp [he, MetaDevIdx.IsInternal] at hidx
    simp only [h.usable_internal hidx hc, Misjudged, hne, false_and, or_false]
    exact covers_iff_of_need (by omega) (by omega) h.laSizeSect hneed
  · cases hi : dev.idx with
    | internal => simp [hi, MetaDevIdx.IsInternal] at hidx
    | flexInt => simp [hi, MetaDevIdx.IsInternal] at hidx
    | flexExt => exact h.usable_flexExt hi hc
    | index i => exact h.usable_index hi hc

/-- A super block is rejected, or describes a usable layout, exactly if it is rejected or is none of
those that slip through. -/
theorem accepted_usable_iff (buf : Nat → UInt8) (dev : Devices) :
    (∀ md, inCoreMd buf dev = some md → checkOffsetsAndSizes dev md = true → Usable dev md) ↔
      ∀ md, inCoreMd buf dev = some md → checkOffsetsAndSizes dev md = true → ¬ Misjudged dev md := by
  refine forall_congr' (fun md => imp_congr_right (fun hmd => imp_congr_right (fun hc => ?_)))
  exact (inCore_of_inCoreMd hmd).usable_iff hc

/-! ## A last agreed size of 16 MB and 4 KiB with one bitmap sector -/

/-- A super block of flexible external meta data with 73 sectors. -/
def partialSuperBlock : Nat → UInt8 := fun i =>
  (beBytes 8 32776 ++ beBytes 8 4 ++ beBytes 32 0 ++ beBytes 8 0 ++ beBytes 4 (2 ^ mdfAlClean) ++ beBytes 4 mdMagic08
    ++ beBytes 4 73 ++ beBytes 4 8 ++ beBytes 4 61 ++ beBytes 4 72 ++ beBytes 4 4096).getD i 0

def partialDevices : Devices := ⟨.flexExt, 65536, 2048, by decide, by decide, fun h => h.elim⟩

theorem accepted_not_usable : ∃ md, mdRead partialSuperBlock partialDevices = .ok md ∧
    inCoreMd partialSuperBlock partialDevices = some md ∧ checkOffsetsAndSizes partialDevices md = true ∧
    ¬ Usable partialDevices md := by
  refine ⟨⟨0, 32776, 73, 8, 72, 1, 8, 8⟩, by decide, by decide, by decide, fun h => ?_⟩
  -- the block after the first 4096
  have hblock := h.covers 4096 (by decide)
  exact absurd hblock (by decide)

end Drbd.Layout
