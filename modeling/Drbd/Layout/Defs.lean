import Drbd.Lib.Bytes

/-!
# The layout of the meta data

Where the super block, the activity log and the bitmap of a device are, as the kernel computes and
checks it. All units are sectors of 512 bytes. In external meta data the activity log and the bitmap
follow the super block, in internal meta data they come before it.
-/

namespace Drbd.Layout

open Lib

/-- `meta_dev_idx`; an attach refuses what is below DRBD_MD_INDEX_FLEX_INT. -/
inductive MetaDevIdx
  | internal
  | flexExt
  | flexInt
  | index (i : Fin (2 ^ 31))
deriving DecidableEq

def MetaDevIdx.IsInternal : MetaDevIdx → Prop
  | .internal | .flexInt => True
  | .flexExt | .index _ => False

instance : ∀ idx : MetaDevIdx, Decidable idx.IsInternal
  | .internal | .flexInt => isTrue trivial
  | .flexExt | .index _ => isFalse id

/-- The capacities of `backing_bdev` and `md_bdev`; a size in bytes is a `loff_t`. Internal meta data
is on the backing device itself. -/
structure Devices where
  idx : MetaDevIdx
  backing : Nat
  md : Nat
  backing_lt : backing < 2 ^ 54
  md_lt : md < 2 ^ 54
  same : idx.IsInternal → md = backing

/-- `struct drbd_md`, without UUIDs and flags -/
structure DrbdMd where
  mdOffset : Nat
  laSizeSect : Nat
  mdSizeSect : Nat
  alOffset : Int
  bmOffset : Int
  alStripes : Nat
  alStripeSize4k : Nat
  alSize4k : Nat
deriving Repr, DecidableEq

def md128MbSect : Nat := 2 ^ 18
def md4kbSect : Nat := 8
def md32kbSect : Nat := 64

/-- DRBD_MAX_SECTORS_FLEX -/
def maxSectorsFlex : Nat := 2 ^ 51

/-- DRBD_MAX_SECTORS_FIXED_BM -/
def maxSectorsFixedBm : Nat := (md128MbSect - md32kbSect - md4kbSect) * 2 ^ 15

/-- `drbd_md_ss()` -/
def mdSs (dev : Devices) : Nat :=
  match dev.idx with
  | .flexExt => 0
  | .internal | .flexInt => unsigned 64 ((dev.backing / 8 * 8 : Nat) - 8)
  | .index i => md128MbSect * i

def mdFirstSector (dev : Devices) (md : DrbdMd) : Nat :=
  if dev.idx.IsInternal then unsigned 64 (md.mdOffset + md.bmOffset) else md.mdOffset

/-- `drbd_get_max_capacity()` -/
def getMaxCapacity (dev : Devices) (md : DrbdMd) : Nat :=
  match dev.idx with
  | .internal | .flexInt => if dev.backing ≠ 0 then min maxSectorsFlex (mdFirstSector dev md) else 0
  -- clip at maximum size the meta device can support
  | .flexExt => min (min maxSectorsFlex dev.backing) (unsigned 32 (md.mdSizeSect - md.bmOffset) * 2 ^ 15)
  | .index _ => min maxSectorsFixedBm dev.backing

/-- `ALIGN(x, a)` -/
def align (x a : Nat) : Nat := (x + (a - 1)) / a * a

/-- `drbd_md_set_sector_offsets()` -/
def mdSetSectorOffsets (dev : Devices) (md : DrbdMd) : DrbdMd :=
  let alSizeSect := unsigned 32 (md.alSize4k * 8)
  let md := { md with mdOffset := mdSs dev }
  match dev.idx with
  | .index _ =>
      { md with
        mdSizeSect := md128MbSect
        alOffset := md4kbSect
        bmOffset := signed 32 (md4kbSect + alSizeSect) }
  | .flexExt =>
      -- just occupy the full device
      { md with
        mdSizeSect := unsigned 32 dev.md
        alOffset := md4kbSect
        bmOffset := signed 32 (md4kbSect + alSizeSect) }
  | .internal | .flexInt =>
      let bmSect := align (align dev.backing (2 ^ 15) / 2 ^ 15) 8
      let mdSizeSect := bmSect + (md4kbSect + alSizeSect)
      { md with
        alOffset := signed 32 (-alSizeSect)
        mdSizeSect := unsigned 32 mdSizeSect
        bmOffset := signed 32 (-mdSizeSect + md4kbSect) }

/-! ## Reading the super block -/

/-- `check_activity_log_stripe_size()`: `al_stripes`, `al_stripe_size_4k` and their product -/
def checkActivityLogStripeSize (stripes stripeSize4k : Nat) : Option (Nat × Nat × Nat) :=
  -- both not set: default to old fixed size activity log
  let (stripes, stripeSize4k) :=
    if stripes = 0 ∧ stripeSize4k = 0 then (1, md32kbSect / 8) else (stripes, stripeSize4k)
  if stripes = 0 ∨ stripeSize4k = 0 then none
  else if stripes * stripeSize4k > 16 * 1024 * 1024 / 4 then none
  else if stripes * stripeSize4k < md32kbSect / 8 then none
  else some (stripes, stripeSize4k, stripes * stripeSize4k)

/-- `on_disk_al_sect` and `on_disk_bm_sect`, calculated from the offsets as `s32` -/
def onDiskSects (md : DrbdMd) : Option (Int × Int) :=
  if md.alOffset < 0 then
    if md.bmOffset > md.alOffset then none
    else some (signed 32 (-md.alOffset), signed 32 (md.alOffset - md.bmOffset))
  else if md.alOffset ≠ md4kbSect then none
  -- a comparison of unsigned numbers
  else if unsigned 32 md.bmOffset < unsigned 32 (md.alOffset + md.alSize4k * md4kbSect) then none
  else some (signed 32 (md.bmOffset - md4kbSect), signed 32 (md.mdSizeSect - md.bmOffset))

/-- Old fixed size meta data is exactly that: fixed. -/
def FixedSize (md : DrbdMd) : Prop :=
  md.mdSizeSect = md128MbSect ∧ md.alOffset = md4kbSect ∧ md.bmOffset = md4kbSect + md32kbSect ∧
    md.alStripes = 1 ∧ md.alStripeSize4k = md32kbSect / 8

instance (md : DrbdMd) : Decidable (FixedSize md) := inferInstanceAs (Decidable (_ ∧ _))

/-- The checks of `check_offsets_and_sizes()` after the sizes have been calculated. The comparison of
the bitmap sectors with the need of the last agreed size is one of `u64`. -/
def SizesFit (dev : Devices) (md : DrbdMd) (alSect bmSect : Int) : Prop :=
  ((∃ i, dev.idx = .index i) → FixedSize md) ∧
    md.mdSizeSect ≤ dev.md ∧
    mdFirstSector dev md ≤ dev.md - md.mdSizeSect ∧
    alSect % 8 = 0 ∧ md32kbSect ≤ alSect ∧
    unsigned 32 alSect = unsigned 32 (md.alSize4k * md4kbSect) ∧
    md.bmOffset % 8 = 0 ∧
    (md.laSizeSect + 7) % 2 ^ 64 / md4kbSect / 8 / 512 ≤ unsigned 64 bmSect

instance : ∀ idx : MetaDevIdx, Decidable (∃ i, idx = .index i)
  | .index i => isTrue ⟨i, rfl⟩
  | .internal => isFalse (fun ⟨_, h⟩ => MetaDevIdx.noConfusion h)
  | .flexExt => isFalse (fun ⟨_, h⟩ => MetaDevIdx.noConfusion h)
  | .flexInt => isFalse (fun ⟨_, h⟩ => MetaDevIdx.noConfusion h)

instance (dev : Devices) (md : DrbdMd) (alSect bmSect : Int) : Decidable (SizesFit dev md alSect bmSect) :=
  inferInstanceAs (Decidable (_ ∧ _))

/-- `check_offsets_and_sizes()`: whether the layout is accepted -/
def checkOffsetsAndSizes (dev : Devices) (md : DrbdMd) : Bool :=
  match onDiskSects md with
  | none => false
  | some (alSect, bmSect) => SizesFit dev md alSect bmSect

/-- The members of `struct meta_data_on_disk` with the layout, once the striping of the activity log
has been checked. -/
def inCoreMd (buf : Nat → UInt8) (dev : Devices) : Option DrbdMd := do
  let (stripes, stripeSize4k, size4k) ← checkActivityLogStripeSize (beNat buf 88 4) (beNat buf 92 4)
  some {
    mdOffset := mdSs dev
    laSizeSect := beNat buf 0 8
    mdSizeSect := beNat buf 64 4
    alOffset := signed 32 (beNat buf 68 4)
    bmOffset := signed 32 (beNat buf 76 4)
    alStripes := stripes
    alStripeSize4k := stripeSize4k
    alSize4k := size4k }

inductive RetCode
  | mdUnclean
  | mdInvalid
deriving Repr, DecidableEq

def mdMagic08 : Nat := 0x83740267 + 4
def mdMagic84Unclean : Nat := 0x83740267 + 5

/-- MDF_AL_CLEAN -/
def mdfAlClean : Nat := 7

/-- `drbd_md_read()` once the super block has been read. Its last two checks compare `bm_offset` and
`md_size_sect` with themselves. -/
def mdRead (buf : Nat → UInt8) (dev : Devices) : Except RetCode DrbdMd :=
  let magic := beNat buf 60 4
  if magic = mdMagic84Unclean ∨ (magic = mdMagic08 ∧ ¬ (beNat buf 56 4).testBit mdfAlClean) then
    .error .mdUnclean
  else if magic ≠ mdMagic08 then .error .mdInvalid
  else if beNat buf 80 4 ≠ 4096 then .error .mdInvalid
  else
    match inCoreMd buf dev with
    | none => .error .mdInvalid
    | some md => if checkOffsetsAndSizes dev md then .ok md else .error .mdInvalid

/-! ## The regions -/

/-- Some sectors of the meta-data device. -/
structure Region where
  start : Int
  sectors : Int
deriving Repr, DecidableEq

def Region.Inside (capacity : Nat) (r : Region) : Prop :=
  0 ≤ r.start ∧ 0 ≤ r.sectors ∧ r.start + r.sectors ≤ capacity

def Region.Disjoint (r s : Region) : Prop :=
  r.start + r.sectors ≤ s.start ∨ s.start + s.sectors ≤ r.start

def DrbdMd.superBlock (md : DrbdMd) : Region := ⟨md.mdOffset, md4kbSect⟩

def DrbdMd.activityLog (md : DrbdMd) : Region := ⟨md.mdOffset + md.alOffset, md.alSize4k * md4kbSect⟩

/-- The sectors between the offset of the bitmap and what comes next: the activity log, or the end of
external meta data. -/
def DrbdMd.bmSectors (md : DrbdMd) : Int :=
  if md.alOffset < 0 then md.alOffset - md.bmOffset else md.mdSizeSect - md.bmOffset

def DrbdMd.bitmap (md : DrbdMd) : Region := ⟨md.mdOffset + md.bmOffset, md.bmSectors⟩

/-- There is a bit for every 4 KiB block of this many sectors. -/
def DrbdMd.Covers (md : DrbdMd) (sectors : Nat) : Prop :=
  ∀ block : Nat, 8 * block < sectors → (block : Int) < md.bmSectors * (512 * 8)

instance (capacity : Nat) (r : Region) : Decidable (r.Inside capacity) := inferInstanceAs (Decidable (_ ∧ _))
instance (r s : Region) : Decidable (r.Disjoint s) := inferInstanceAs (Decidable (_ ∨ _))

/-- What the super block, the activity log and the bitmap need. -/
structure Usable (dev : Devices) (md : DrbdMd) : Prop where
  superBlock : md.superBlock.Inside dev.md
  activityLog : md.activityLog.Inside dev.md
  bitmap : md.bitmap.Inside dev.md
  superBlock_activityLog : md.superBlock.Disjoint md.activityLog
  superBlock_bitmap : md.superBlock.Disjoint md.bitmap
  activityLog_bitmap : md.activityLog.Disjoint md.bitmap
  covers : md.Covers md.laSizeSect

end Drbd.Layout
