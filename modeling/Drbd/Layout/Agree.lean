import Drbd.Layout.Accepted
import Drbd.Layout.Drbdmeta

/-!
# The kernel and the tool agree on the layout
-/

namespace Drbd.Layout

open Lib

variable {dev : Devices} {md : DrbdMd} {m m' : Meta.MdCpu}

/-- The activity log of both sides, within the limits of the kernel. -/
structure SameAl (md : DrbdMd) (m : Meta.MdCpu) : Prop where
  alStripes : m.alStripes = md.alStripes
  alStripeSize4k : m.alStripeSize4k = md.alStripeSize4k
  alSize4k : md.alSize4k = md.alStripes * md.alStripeSize4k
  le : 8 ≤ md.alSize4k
  le_max : md.alSize4k ≤ 2 ^ 22

theorem SameAl.alSizeSect (h : SameAl md m) : Meta.alSizeSect m = md.alSize4k * 8 := by
  have hle := h.le_max
  unfold Meta.alSizeSect
  rw [h.alStripes, h.alStripeSize4k, ← h.alSize4k]
  push_cast
  exact signed_eq_self (by omega) (by omega)

theorem SameAl.unsigned (h : SameAl md m) : Lib.unsigned 32 (md.alSize4k * 8) = md.alSize4k * 8 := by
  have hle := h.le_max
  have hu : (Lib.unsigned 32 (md.alSize4k * 8) : Int) = md.alSize4k * 8 := unsigned_eq_self (by omega) (by omega)
  omega

/-- The bitmap sectors of internal meta data: one for every 16 MB, in 4 KiB blocks. -/
def bmSect (capacity : Nat) : Nat := align (align capacity (2 ^ 15) / 2 ^ 15) 8

theorem bmSect_eq (capacity : Nat) : bmSect capacity = ((capacity + 32767) / 32768 + 7) / 8 * 8 := by
  unfold bmSect align
  omega

/-- Sectors and bytes give the same. -/
theorem bmSizeSect_eq {capacity : Nat} (h : capacity < 2 ^ 54) :
    Meta.bmSizeSect (capacity * 512) = bmSect capacity := by
  rw [bmSect_eq, Meta.bmSizeSect, Nat.mod_eq_of_lt (by omega)]
  omega

theorem bmSect_le {capacity : Nat} (h : capacity ≤ 2 ^ 41) : bmSect capacity ≤ 2 ^ 26 := by
  rw [bmSect_eq]
  omega

/-! ## The offsets of the kernel -/

theorem offsets_index {i : Fin (2 ^ 31)} (h : SameAl md m) (hidx : dev.idx = .index i) :
    mdSetSectorOffsets dev md =
      { md with mdOffset := mdSs dev, mdSizeSect := 2 ^ 18, alOffset := 8, bmOffset := 8 + md.alSize4k * 8 } := by
  have hle := h.le_max
  have hs : signed 32 (8 + md.alSize4k * 8) = 8 + md.alSize4k * 8 := signed_eq_self (by omega) (by omega)
  simp only [mdSetSectorOffsets, hidx, h.unsigned, md128MbSect, md4kbSect]
  push_cast
  rw [hs]

theorem offsets_flexExt (h : SameAl md m) (hidx : dev.idx = .flexExt) :
    mdSetSectorOffsets dev md =
      { md with
        mdOffset := 0
        mdSizeSect := Lib.unsigned 32 dev.md
        alOffset := 8
        bmOffset := 8 + md.alSize4k * 8 } := by
  have hle := h.le_max
  have hs : signed 32 (8 + md.alSize4k * 8) = 8 + md.alSize4k * 8 := signed_eq_self (by omega) (by omega)
  simp only [mdSetSectorOffsets, hidx, h.unsigned, md4kbSect, mdSs]
  push_cast
  rw [hs]

theorem offsets_internal (h : SameAl md m) (hidx : dev.idx.IsInternal) (hcap : dev.backing ≤ 2 ^ 41) :
    mdSetSectorOffsets dev md =
      { md with
        mdOffset := mdSs dev
        mdSizeSect := bmSect dev.backing + 8 + md.alSize4k * 8
        alOffset := -(md.alSize4k * 8)
        bmOffset := -(bmSect dev.backing + md.alSize4k * 8) } := by
  have hle := h.le_max
  have hbm := bmSect_le hcap
  have hal : signed 32 (-(md.alSize4k * 8)) = -(md.alSize4k * 8) := signed_eq_self (by omega) (by omega)
  have hoff : signed 32 (-(bmSect dev.backing + (8 + md.alSize4k * 8)) + 8) =
      -(bmSect dev.backing + md.alSize4k * 8) := by
    rw [signed_eq_self (by omega) (by omega)]
    omega
  have hsize : Lib.unsigned 32 (bmSect dev.backing + (8 + md.alSize4k * 8)) =
      bmSect dev.backing + 8 + md.alSize4k * 8 := by
    have hu : (Lib.unsigned 32 (bmSect dev.backing + (8 + md.alSize4k * 8)) : Int) =
        bmSect dev.backing + (8 + md.alSize4k * 8) := unsigned_eq_self (by omega) (by omega)
    omega
  have hset : mdSetSectorOffsets dev md =
      { md with
        mdOffset := mdSs dev
        mdSizeSect := Lib.unsigned 32 (bmSect dev.backing + (8 + md.alSize4k * 8) : Nat)
        alOffset := signed 32 (-(md.alSize4k * 8 : Nat))
        bmOffset := signed 32 (-(bmSect dev.backing + (8 + md.alSize4k * 8) : Nat) + 8) } := by
    unfold mdSetSectorOffsets
    cases hi : dev.idx <;> simp_all [MetaDevIdx.IsInternal, h.unsigned, md4kbSect, bmSect]
  rw [hset]
  push_cast
  rw [hal, hoff, hsize]

/-! ## The offsets of the tool -/

/-- The two sides have the super block at the same place and the same sizes and offsets. -/
structure Agrees (dev : Devices) (md : DrbdMd) (m : Meta.MdCpu) : Prop where
  superBlock : v07StyleMdGetByteOffset dev.idx.v08 (dev.md * 512) = md.mdOffset * 512 % 2 ^ 64
  mdSizeSect : m.mdSizeSect = md.mdSizeSect
  alOffset : m.alOffset = md.alOffset
  bmOffset : m.bmOffset = md.bmOffset

theorem superBlock_agrees (dev : Devices) :
    v07StyleMdGetByteOffset dev.idx.v08 (dev.md * 512) = mdSs dev * 512 % 2 ^ 64 := by
  have hcap := dev.md_lt
  by_cases hidx : dev.idx.IsInternal
  · have hv : v07StyleMdGetByteOffset dev.idx.v08 (dev.md * 512) = Meta.mdGetByteOffset (dev.md * 512) := by
      cases hi : dev.idx <;> simp_all [MetaDevIdx.IsInternal, MetaDevIdx.v08, v07StyleMdGetByteOffset]
    have hsame := dev.same hidx
    rw [hv, Meta.mdGetByteOffset]
    by_cases hsmall : dev.backing < 8
    · have hss := mdSs_of_lt hidx hsmall
      have hu : (Lib.unsigned 64 ((dev.md * 512 : Nat) - 4096) : Int) = (dev.md * 512 : Nat) - 4096 + 2 ^ 64 := by
        have hmod : (((dev.md * 512 : Nat) : Int) - 4096) % 2 ^ 64 = (dev.md * 512 : Nat) - 4096 + 2 ^ 64 := by omega
        unfold Lib.unsigned
        rw [hmod]
        omega
      omega
    · have hss := mdSs_of_le hidx (Nat.le_of_not_lt hsmall)
      have hu : (Lib.unsigned 64 ((dev.md * 512 : Nat) - 4096) : Int) = (dev.md * 512 : Nat) - 4096 :=
        unsigned_eq_self (by omega) (by omega)
      omega
  · cases hi : dev.idx with
    | internal => simp [hi, MetaDevIdx.IsInternal] at hidx
    | flexInt => simp [hi, MetaDevIdx.IsInternal] at hidx
    | flexExt => simp [MetaDevIdx.v08, v07StyleMdGetByteOffset, mdSs, hi]
    | index i =>
        have hlt := i.isLt
        have hu : (Lib.unsigned 64 (2 ^ 18 * i * 512) : Int) = 2 ^ 18 * i * 512 :=
          unsigned_eq_self (by omega) (by omega)
        simp only [MetaDevIdx.v08, v07StyleMdGetByteOffset, mdSs, hi, md128MbSect]
        omega

theorem flexMdSizeSect_eq (h : SameAl md m) (hcap : dev.backing ≤ 2 ^ 41) :
    Meta.flexMdSizeSect m (dev.backing * 512) = bmSect dev.backing + 8 + md.alSize4k * 8 := by
  have hle := h.le_max
  have hbm := bmSect_le hcap
  unfold Meta.flexMdSizeSect
  rw [h.alSizeSect, bmSizeSect_eq dev.backing_lt, Meta.mdAlOffset07]
  have hu : (Lib.unsigned 64 (bmSect dev.backing + ((8 : Nat) + md.alSize4k * 8)) : Int) =
      bmSect dev.backing + ((8 : Nat) + md.alSize4k * 8) := unsigned_eq_self (by omega) (by omega)
  omega

theorem reInitialize_internal (h : SameAl md m) (hidx : dev.idx.IsInternal) (hcap : dev.backing ≤ 2 ^ 41) :
    reInitializeMdOffsets dev.idx.v08 (dev.md * 512) m =
      some { m with
        mdSizeSect := bmSect dev.backing + 8 + md.alSize4k * 8
        alOffset := -(md.alSize4k * 8)
        bmOffset := -(bmSect dev.backing + md.alSize4k * 8) } := by
  have hle := h.le_max
  have hbm := bmSect_le hcap
  have hv : dev.idx.v08 = .flexInt := by
    cases hi : dev.idx <;> simp_all [MetaDevIdx.IsInternal, MetaDevIdx.v08]
  have hfit : ¬ Meta.bmSizeSect (dev.backing * 512) > Meta.mdBmMaxSectFlex := by
    rw [bmSizeSect_eq dev.backing_lt, show Meta.mdBmMaxSectFlex = 2 ^ 26 by decide]
    omega
  rw [hv, dev.same hidx, reInitializeMdOffsets, if_neg hfit, flexMdSizeSect_eq h hcap, h.alSizeSect,
    Meta.mdAlOffset07]
  have hal : signed 32 (-(md.alSize4k * 8)) = -(md.alSize4k * 8) := signed_eq_self (by omega) (by omega)
  have hsize : Lib.unsigned 32 (bmSect dev.backing + 8 + md.alSize4k * 8 : Nat) =
      bmSect dev.backing + 8 + md.alSize4k * 8 := by
    have hu : (Lib.unsigned 32 (bmSect dev.backing + 8 + md.alSize4k * 8 : Nat) : Int) =
        (bmSect dev.backing + 8 + md.alSize4k * 8 : Nat) := unsigned_eq_self (by omega) (by omega)
    omega
  have hoff : signed 32 (-(bmSect dev.backing + 8 + md.alSize4k * 8 : Nat) + (8 : Nat)) =
      -(bmSect dev.backing + md.alSize4k * 8) := by
    rw [signed_eq_self (by omega) (by omega)]
    omega
  dsimp only
  rw [hal, hsize, hoff]

theorem reInitialize_external (h : SameAl md m) (hidx : ¬ dev.idx.IsInternal) :
    ∃ m', reInitializeMdOffsets dev.idx.v08 (dev.md * 512) m = some m' ∧ Agrees dev (mdSetSectorOffsets dev md) m' ∧
      m' = { m with mdSizeSect := m'.mdSizeSect, alOffset := 8, bmOffset := 8 + md.alSize4k * 8 } := by
  have hle := h.le_max
  have hs : signed 32 ((8 : Nat) + md.alSize4k * 8) = 8 + md.alSize4k * 8 := signed_eq_self (by omega) (by omega)
  have hsb := superBlock_agrees dev
  cases hi : dev.idx with
  | internal => simp [hi, MetaDevIdx.IsInternal] at hidx
  | flexInt => simp [hi, MetaDevIdx.IsInternal] at hidx
  | flexExt =>
      simp only [MetaDevIdx.v08, reInitializeMdOffsets, Meta.mdAlOffset07, h.alSizeSect, hs]
      refine ⟨_, rfl, ?_, rfl⟩
      rw [offsets_flexExt h hi]
      refine ⟨?_, ?_, rfl, rfl⟩
      · rw [hsb]
        simp [mdSs, hi]
      · simp
  | index i =>
      simp only [MetaDevIdx.v08, reInitializeMdOffsets, Meta.mdAlOffset07, h.alSizeSect, hs]
      refine ⟨_, rfl, ?_, rfl⟩
      rw [offsets_index h hi]
      exact ⟨hsb, rfl, rfl, rfl⟩

/-! ## What the layout is good for -/

/-- The meta data fits on the device. -/
structure Fits (dev : Devices) (md : DrbdMd) : Prop where
  superBlock : md.superBlock.Inside dev.md
  activityLog : md.activityLog.Inside dev.md
  bitmap : md.bitmap.Inside dev.md

/-- The first region ends where the second one starts. -/
def Region.Before (r s : Region) : Prop := r.start + r.sectors = s.start

/-- The three regions follow one another. -/
def DrbdMd.Adjacent (md : DrbdMd) : Prop :=
  (md.bitmap.Before md.activityLog ∧ md.activityLog.Before md.superBlock) ∨
    (md.superBlock.Before md.activityLog ∧ md.activityLog.Before md.bitmap)

/-- What the layout promises once it fits; fixed size meta data has a fixed size activity log. -/
structure Serves (dev : Devices) (md : DrbdMd) : Prop where
  accepted : checkOffsetsAndSizes dev md = true
  superBlock_activityLog : md.superBlock.Disjoint md.activityLog
  superBlock_bitmap : md.superBlock.Disjoint md.bitmap
  activityLog_bitmap : md.activityLog.Disjoint md.bitmap
  covers : md.Covers (getMaxCapacity dev md)

theorem DrbdMd.Adjacent.disjoint (h : md.Adjacent) (hf : Fits dev md) :
    md.superBlock.Disjoint md.activityLog ∧ md.superBlock.Disjoint md.bitmap ∧
      md.activityLog.Disjoint md.bitmap := by
  have h1 := hf.superBlock.2.1
  have h2 := hf.activityLog.2.1
  have h3 := hf.bitmap.2.1
  unfold Adjacent Region.Before at h
  unfold Region.Disjoint
  omega

theorem covers_of_le {sectors : Nat} (h : (sectors : Int) ≤ md.bmSectors * 2 ^ 15) : md.Covers sectors := by
  intro block hb
  omega

/-- What `check_offsets_and_sizes()` needs of internal meta data. -/
theorem check_of_internal (hal : -md.alOffset = md.alSize4k * 8) (h8 : 8 ≤ md.alSize4k) (h22 : md.alSize4k ≤ 2 ^ 22)
    (hbm : md.bmOffset ≤ md.alOffset) (hlow : -2 ^ 31 ≤ md.bmOffset) (halign : md.bmOffset % 8 = 0)
    (hidx : ¬ ∃ i, dev.idx = .index i) (hsize : md.mdSizeSect ≤ dev.md)
    (hfirst : mdFirstSector dev md ≤ dev.md - md.mdSizeSect)
    (hla : md.laSizeSect ≤ (md.alOffset - md.bmOffset) * 2 ^ 15) :
    checkOffsetsAndSizes dev md = true := by
  have hneg : md.alOffset < 0 := by omega
  have hs1 : signed 32 (-md.alOffset) = -md.alOffset := signed_eq_self (by omega) (by omega)
  have hs2 : signed 32 (md.alOffset - md.bmOffset) = md.alOffset - md.bmOffset := signed_eq_self (by omega) (by omega)
  have hsects : onDiskSects md = some (-md.alOffset, md.alOffset - md.bmOffset) := by
    simp only [onDiskSects, if_pos hneg, if_neg (Int.not_lt.mpr hbm), hs1, hs2]
  refine (checkOffsetsAndSizes_of_some hsects).mpr ⟨fun hi => absurd hi hidx, hsize, hfirst, ?_, ?_, ?_, halign, ?_⟩
  · omega
  · simp only [md32kbSect]
    omega
  · rw [hal]
    simp [md4kbSect]
  · rw [need_le_iff (by omega) (by omega), Nat.mod_eq_of_lt (by omega)]
    omega

/-- What it needs of external meta data. -/
theorem check_of_external (hal : md.alOffset = 8) (h8 : 8 ≤ md.alSize4k) (h22 : md.alSize4k ≤ 2 ^ 22)
    (hbm : md.bmOffset = 8 + md.alSize4k * 8) (hfix : (∃ i, dev.idx = .index i) → FixedSize md)
    (hsize : md.mdSizeSect ≤ dev.md) (h32 : md.mdSizeSect < 2 ^ 32)
    (hfirst : mdFirstSector dev md ≤ dev.md - md.mdSizeSect) (hfit : md.bmOffset ≤ md.mdSizeSect)
    (hla : md.laSizeSect ≤ (md.mdSizeSect - md.bmOffset) * 2 ^ 15) : checkOffsetsAndSizes dev md = true := by
  have hnn : ¬ md.alOffset < 0 := by omega
  have hs1 : signed 32 (md.bmOffset - md4kbSect) = md.alSize4k * 8 := by
    rw [md4kbSect, hbm, signed_eq_self (by omega) (by omega)]
    omega
  have hord : ¬ Lib.unsigned 32 md.bmOffset < Lib.unsigned 32 (md.alOffset + md.alSize4k * md4kbSect) := by
    rw [hbm, hal, md4kbSect]
    exact Nat.lt_irrefl _
  have hsects : onDiskSects md = some ((md.alSize4k * 8 : Int), signed 32 (md.mdSizeSect - md.bmOffset)) := by
    simp only [onDiskSects, if_neg hnn, if_neg (not_not_intro (show md.alOffset = md4kbSect from hal)),
      if_neg hord, hs1]
  refine (checkOffsetsAndSizes_of_some hsects).mpr ⟨hfix, hsize, hfirst, ?_, ?_, rfl, ?_, ?_⟩
  · omega
  · simp only [md32kbSect]
    omega
  · omega
  · by_cases h31 : md.mdSizeSect - md.bmOffset < 2 ^ 31
    · rw [signed_eq_self (by omega) h31, need_le_iff (by omega) h31, Nat.mod_eq_of_lt (by omega)]
      omega
    · -- the number of sectors is negative as an `s32` and huge as a `u64`
      have hs2 : signed 32 (md.mdSizeSect - md.bmOffset) = md.mdSizeSect - md.bmOffset - 2 ^ 32 := by
        have hw : signed 32 (md.mdSizeSect - md.bmOffset) = signed 32 (md.mdSizeSect - md.bmOffset - 2 ^ 32) := by
          unfold signed
          exact (Int.sub_bmod_right _ _).symm
        rw [hw]
        exact signed_eq_self (by omega) (by omega)
      have hu : (Lib.unsigned 64 (md.mdSizeSect - md.bmOffset - 2 ^ 32) : Int) =
          md.mdSizeSect - md.bmOffset - 2 ^ 32 + 2 ^ 64 := by
        have hmod : (md.mdSizeSect - md.bmOffset - 2 ^ 32) % 2 ^ 64 =
            md.mdSizeSect - md.bmOffset - 2 ^ 32 + 2 ^ 64 := by omega
        unfold Lib.unsigned
        rw [hmod]
        omega
      rw [hs2, md4kbSect, Nat.div_div_eq_div_mul, Nat.div_div_eq_div_mul, Nat.mod_eq_of_lt (by omega)]
      omega

theorem adjacent_internal (h : SameAl md m) (hidx : dev.idx.IsInternal) (hcap : dev.backing ≤ 2 ^ 41) :
    (mdSetSectorOffsets dev md).Adjacent := by
  have hle := h.le
  rw [offsets_internal h hidx hcap]
  refine .inl ⟨?_, ?_⟩
  · simp only [Region.Before, DrbdMd.bitmap, DrbdMd.activityLog, DrbdMd.bmSectors]
    rw [if_pos (by omega)]
    omega
  · simp only [Region.Before, DrbdMd.superBlock, DrbdMd.activityLog, md4kbSect]
    omega

theorem adjacent_external (h : SameAl md m) (hidx : ¬ dev.idx.IsInternal) : (mdSetSectorOffsets dev md).Adjacent := by
  have hoff : (mdSetSectorOffsets dev md).alOffset = 8 ∧
      (mdSetSectorOffsets dev md).bmOffset = 8 + md.alSize4k * 8 ∧
      (mdSetSectorOffsets dev md).alSize4k = md.alSize4k := by
    cases hi : dev.idx with
    | internal => simp [hi, MetaDevIdx.IsInternal] at hidx
    | flexInt => simp [hi, MetaDevIdx.IsInternal] at hidx
    | flexExt => rw [offsets_flexExt h hi]; exact ⟨rfl, rfl, rfl⟩
    | index i => rw [offsets_index h hi]; exact ⟨rfl, rfl, rfl⟩
  obtain ⟨hal, hbm, hsize⟩ := hoff
  refine .inr ⟨?_, ?_⟩
  · simp only [Region.Before, DrbdMd.superBlock, DrbdMd.activityLog, md4kbSect, hal]
    omega
  · simp only [Region.Before, DrbdMd.bitmap, DrbdMd.activityLog, md4kbSect, hal, hbm, hsize]
    omega

theorem serves_internal (h : SameAl md m) (hidx : dev.idx.IsInternal) (hcap : dev.backing ≤ 2 ^ 41)
    (hf : Fits dev (mdSetSectorOffsets dev md))
    (hla : md.laSizeSect ≤ getMaxCapacity dev (mdSetSectorOffsets dev md)) :
    Serves dev (mdSetSectorOffsets dev md) := by
  obtain ⟨hd1, hd2, hd3⟩ := (adjacent_internal h hidx hcap).disjoint hf
  have hle := h.le
  have hmax := h.le_max
  have hbm := bmSect_le hcap
  have hsame := dev.same hidx
  have hsect := bmSect_eq dev.backing
  rw [offsets_internal h hidx hcap] at hf hla hd1 hd2 hd3 ⊢
  obtain ⟨-, hsb⟩ := hf.superBlock.2
  obtain ⟨hstart, -, -⟩ := hf.bitmap
  simp only [DrbdMd.superBlock, DrbdMd.bitmap, md4kbSect] at hsb hstart
  have hss : (mdSs dev : Int) = (dev.backing / 8 * 8 : Nat) - 8 := by
    by_cases hsmall : dev.backing < 8
    · have := mdSs_of_lt hidx hsmall
      omega
    · exact mdSs_of_le hidx (by omega)
  have hfirst : Lib.unsigned 64 (mdSs dev + -(bmSect dev.backing + md.alSize4k * 8 : Int)) ≤
      dev.backing - (bmSect dev.backing + 8 + md.alSize4k * 8) := by
    have hu : (Lib.unsigned 64 (mdSs dev + -(bmSect dev.backing + md.alSize4k * 8 : Int)) : Int) =
        mdSs dev + -(bmSect dev.backing + md.alSize4k * 8 : Int) := unsigned_eq_self (by omega) (by omega)
    omega
  have hmaxcap (d : DrbdMd) : getMaxCapacity dev d ≤ mdFirstSector dev d := by
    unfold getMaxCapacity
    cases hi : dev.idx <;> simp_all [MetaDevIdx.IsInternal]
    all_goals
      split
      · exact Nat.zero_le _
      · exact Nat.min_le_right _ _
  have hcapacity := hmaxcap { md with
        mdOffset := mdSs dev
        mdSizeSect := bmSect dev.backing + 8 + md.alSize4k * 8
        alOffset := -(md.alSize4k * 8)
        bmOffset := -(bmSect dev.backing + md.alSize4k * 8) }
  simp only [mdFirstSector, if_pos hidx] at hcapacity
  refine ⟨?_, hd1, hd2, hd3, covers_of_le ?_⟩
  · have hni : ¬ ∃ i, dev.idx = .index i := by
      rintro ⟨i, hi⟩
      simp [hi, MetaDevIdx.IsInternal] at hidx
    apply check_of_internal <;> try dsimp only
    · omega
    · exact hle
    · exact hmax
    · omega
    · omega
    · omega
    · exact hni
    · omega
    · rw [mdFirstSector, if_pos hidx, hsame]
      exact hfirst
    · omega
  · simp only [DrbdMd.bmSectors]
    rw [if_pos (by omega)]
    omega

theorem serves_flexExt (h : SameAl md m) (hidx : dev.idx = .flexExt)
    (hf : Fits dev (mdSetSectorOffsets dev md))
    (hla : md.laSizeSect ≤ getMaxCapacity dev (mdSetSectorOffsets dev md)) :
    Serves dev (mdSetSectorOffsets dev md) := by
  have hni : ¬ dev.idx.IsInternal := by simp [hidx, MetaDevIdx.IsInternal]
  obtain ⟨hd1, hd2, hd3⟩ := (adjacent_external h hni).disjoint hf
  have hmd : Lib.unsigned 32 dev.md < 2 ^ 32 ∧ Lib.unsigned 32 dev.md ≤ dev.md := by
    unfold Lib.unsigned
    omega
  rw [offsets_flexExt h hidx] at hf hla hd1 hd2 hd3 ⊢
  have hfit := hf.bitmap.2.1
  simp only [DrbdMd.bitmap, DrbdMd.bmSectors] at hfit
  rw [if_neg (by omega)] at hfit
  have hdiff : (Lib.unsigned 32 (Lib.unsigned 32 dev.md - (8 + md.alSize4k * 8 : Int)) : Int) =
      Lib.unsigned 32 dev.md - (8 + md.alSize4k * 8) := unsigned_eq_self (by omega) (by omega)
  simp only [getMaxCapacity, hidx] at hla
  refine ⟨?_, hd1, hd2, hd3, covers_of_le ?_⟩
  · apply check_of_external <;> try dsimp only
    · exact h.le
    · exact h.le_max
    · rintro ⟨i, hi⟩
      simp [hi] at hidx
    · exact hmd.2
    · exact hmd.1
    · rw [mdFirstSector, if_neg hni]
      exact Nat.zero_le _
    · omega
    · omega
  · simp only [DrbdMd.bmSectors, getMaxCapacity, hidx]
    rw [if_neg (by omega)]
    omega

theorem serves_index {i : Fin (2 ^ 31)} (h : SameAl md m) (hidx : dev.idx = .index i)
    (hfixed : md.alStripes = 1 ∧ md.alStripeSize4k = 8) (hf : Fits dev (mdSetSectorOffsets dev md))
    (hla : md.laSizeSect ≤ getMaxCapacity dev (mdSetSectorOffsets dev md)) :
    Serves dev (mdSetSectorOffsets dev md) := by
  have hni : ¬ dev.idx.IsInternal := by simp [hidx, MetaDevIdx.IsInternal]
  obtain ⟨hd1, hd2, hd3⟩ := (adjacent_external h hni).disjoint hf
  have hsize : md.alSize4k = 8 := by
    rw [h.alSize4k, hfixed.1, hfixed.2]
  rw [offsets_index h hidx] at hf hla hd1 hd2 hd3 ⊢
  have hend := hf.bitmap.2.2
  simp only [DrbdMd.bitmap, DrbdMd.bmSectors] at hend
  rw [if_neg (by omega)] at hend
  have hfixedBm : maxSectorsFixedBm = 262072 * 2 ^ 15 := by decide
  simp only [getMaxCapacity, hidx, hfixedBm] at hla
  refine ⟨?_, hd1, hd2, hd3, covers_of_le ?_⟩
  · apply check_of_external <;> try dsimp only
    · omega
    · omega
    · intro _
      simp [FixedSize, md128MbSect, md4kbSect, md32kbSect, hsize, hfixed]
    · omega
    · omega
    · rw [mdFirstSector, if_neg hni]
      dsimp only
      omega
    · omega
    · omega
  · simp only [DrbdMd.bmSectors, getMaxCapacity, hidx, hfixedBm]
    rw [if_neg (by omega)]
    omega

/-! ## Both sides together -/

theorem agrees_internal (h : SameAl md m) (hidx : dev.idx.IsInternal) (hcap : dev.backing ≤ 2 ^ 41)
    (hmagic : m.magic = Meta.mdMagic08) :
    ∃ m', reInitializeMdOffsets dev.idx.v08 (dev.md * 512) m = some m' ∧
      Agrees dev (mdSetSectorOffsets dev md) m' ∧ IsValidMd dev.idx.v08 m' (dev.md * 512) := by
  have hle := h.le_max
  have hbm := bmSect_le hcap
  have hv : dev.idx.v08 = .flexInt := by
    cases hi : dev.idx <;> simp_all [MetaDevIdx.IsInternal, MetaDevIdx.v08]
  refine ⟨_, reInitialize_internal h hidx hcap, ?_, ?_⟩
  · rw [offsets_internal h hidx hcap]
    exact ⟨superBlock_agrees dev, rfl, rfl, rfl⟩
  · rw [hv, dev.same hidx]
    -- the offsets do not change the size of the activity log
    have hsame (s : Nat) (a b : Int) : SameAl md { m with mdSizeSect := s, alOffset := a, bmOffset := b } :=
      ⟨h.alStripes, h.alStripeSize4k, h.alSize4k, h.le, h.le_max⟩
    refine ⟨.inl hmagic, ?_, ?_, ?_⟩
    · rw [(hsame _ _ _).alSizeSect, signed_eq_self (by omega) (by omega)]
    · rw [flexMdSizeSect_eq (hsame _ _ _) hcap, Meta.mdAlOffset07]
      push_cast
      rw [signed_eq_self (by omega) (by omega)]
      omega
    · rw [flexMdSizeSect_eq (hsame _ _ _) hcap]

theorem agrees_external (h : SameAl md m) (hidx : ¬ dev.idx.IsInternal) (hmagic : m.magic = Meta.mdMagic08) :
    ∃ m', reInitializeMdOffsets dev.idx.v08 (dev.md * 512) m = some m' ∧
      Agrees dev (mdSetSectorOffsets dev md) m' ∧ IsValidMd dev.idx.v08 m' (dev.md * 512) := by
  obtain ⟨m', hm', hag, heq⟩ := reInitialize_external h hidx
  refine ⟨m', hm', hag, ?_⟩
  have hal : Meta.alSizeSect m' = md.alSize4k * 8 := by
    rw [heq]
    exact h.alSizeSect
  have hvalid : (m'.magic = Meta.mdMagic08 ∨ m'.magic = Meta.mdMagic84Unclean) ∧
      m'.alOffset = Meta.mdAlOffset07 ∧ m'.bmOffset = Meta.mdAlOffset07 + Meta.alSizeSect m' := by
    rw [hal, heq]
    exact ⟨.inl hmagic, rfl, rfl⟩
  cases hi : dev.idx with
  | internal => simp [hi, MetaDevIdx.IsInternal] at hidx
  | flexInt => simp [hi, MetaDevIdx.IsInternal] at hidx
  | flexExt => exact hvalid
  | index i => exact hvalid

/-- For every size of the device, every kind of index and every activity log within the limits, the
kernel and the tool place the meta data alike, and when it fits it serves its purpose. Internal meta
data is for devices up to 1 PiB; the activity log of indexed meta data has a fixed size. -/
theorem layouts_agree (h : SameAl md m) (hmagic : m.magic = Meta.mdMagic08)
    (hcap : dev.idx.IsInternal → dev.backing ≤ 2 ^ 41) :
    (∃ m', reInitializeMdOffsets dev.idx.v08 (dev.md * 512) m = some m' ∧
      Agrees dev (mdSetSectorOffsets dev md) m' ∧ IsValidMd dev.idx.v08 m' (dev.md * 512)) ∧
    (mdSetSectorOffsets dev md).Adjacent ∧
    (Fits dev (mdSetSectorOffsets dev md) →
      ((∃ i, dev.idx = .index i) → md.alStripes = 1 ∧ md.alStripeSize4k = 8) →
      md.laSizeSect ≤ getMaxCapacity dev (mdSetSectorOffsets dev md) →
      Serves dev (mdSetSectorOffsets dev md)) := by
  by_cases hidx : dev.idx.IsInternal
  · exact ⟨agrees_internal h hidx (hcap hidx) hmagic, adjacent_internal h hidx (hcap hidx),
      fun hf _ hla => serves_internal h hidx (hcap hidx) hf hla⟩
  · refine ⟨agrees_external h hidx hmagic, adjacent_external h hidx, fun hf hfixed hla => ?_⟩
    cases hi : dev.idx with
    | internal => simp [hi, MetaDevIdx.IsInternal] at hidx
    | flexInt => simp [hi, MetaDevIdx.IsInternal] at hidx
    | flexExt => exact serves_flexExt h hi hf hla
    | index i => exact serves_index h hi (hfixed ⟨i, hi⟩) hf hla

/-- A device of 1 GiB and 7 sectors with internal meta data and an activity log of two stripes. -/
def exampleDevices : Devices := ⟨.internal, 2097159, 2097159, by decide, by decide, fun _ => rfl⟩

def exampleMd : DrbdMd := ⟨0, 0, 0, 0, 0, 2, 8, 16⟩

def exampleMdCpu : Meta.MdCpu :=
  { Meta.MdCpu.zero with magic := Meta.mdMagic08, alStripes := 2, alStripeSize4k := 8 }

theorem layouts_agree_internal :
    (mdSetSectorOffsets exampleDevices exampleMd).mdOffset = 2097144 ∧
      (mdSetSectorOffsets exampleDevices exampleMd).bmOffset = -200 ∧
      Serves exampleDevices (mdSetSectorOffsets exampleDevices exampleMd) := by
  refine ⟨by decide, by decide, ?_⟩
  have hsame : SameAl exampleMd exampleMdCpu := ⟨rfl, rfl, rfl, by decide, by decide⟩
  refine (layouts_agree hsame rfl (fun _ => by decide)).2.2 ?_ ?_ ?_
  · exact ⟨by decide, by decide, by decide⟩
  · rintro ⟨i, hi⟩
    cases hi
  · decide

/-- An indexed layout with two stripes fits on the device and is not accepted, and for a device larger
than 1 PiB the tool gives up. -/
theorem layouts_differ :
    (∃ dev md m, SameAl md m ∧ m.magic = Meta.mdMagic08 ∧ md.laSizeSect = 0 ∧ Fits dev (mdSetSectorOffsets dev md) ∧
      checkOffsetsAndSizes dev (mdSetSectorOffsets dev md) = false) ∧
    ∃ dev md m, SameAl md m ∧ m.magic = Meta.mdMagic08 ∧ Fits dev (mdSetSectorOffsets dev md) ∧
      reInitializeMdOffsets dev.idx.v08 (dev.md * 512) m = none := by
  have hsame : SameAl exampleMd exampleMdCpu := ⟨rfl, rfl, rfl, by decide, by decide⟩
  refine ⟨⟨⟨.index 0, 2 ^ 20, 2 ^ 20, by decide, by decide, fun h => h.elim⟩, exampleMd, exampleMdCpu, hsame, rfl, rfl,
    ⟨by decide, by decide, by decide⟩, by decide⟩,
    ⟨⟨.flexInt, 2 ^ 41 + 8, 2 ^ 41 + 8, by decide, by decide, fun _ => rfl⟩, exampleMd, exampleMdCpu, hsame, rfl,
    ⟨by decide, by decide, by decide⟩, ?_⟩⟩
  unfold reInitializeMdOffsets
  exact if_pos (by decide)

end Drbd.Layout
