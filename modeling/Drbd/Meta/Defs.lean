import Drbd.Lib.Bytes

/-!
# Internal meta data of a backing device

The administration tool finds the super block of flexible-size internal meta data in the last 4 KiB
of the device. When the device was grown offline, the super block is still where the end used to be,
and the tool moves the whole meta data to the new end.

An `exit()` or `abort()` of the tool is `none`.
-/

namespace Drbd.Meta

open Lib

/-- A block device; its size fits an `off_t`. -/
structure Device where
  size : Nat
  byte : Nat → UInt8
  size_lt : size < 2 ^ 63

/-- `on_disk_buffer` has this many bytes. -/
def bufferSize : Nat := 32 * 1024 * 1024

/-- The system call takes the whole of the `count` bytes. A count that does not fit the buffer comes
from an activity log larger than it; no `pread` into the buffer can honour that one. -/
def Transfers (dev : Device) (count off : Int) : Prop :=
  0 ≤ off ∧ 0 ≤ count ∧ count ≤ bufferSize ∧ (count = 0 ∨ off + count ≤ dev.size)

instance (dev : Device) (count off : Int) : Decidable (Transfers dev count off) :=
  inferInstanceAs (Decidable (_ ∧ _))

def preadOrDie (dev : Device) (count off : Int) : Option (Nat → UInt8) :=
  if Transfers dev count off then some fun i => dev.byte (off.toNat + i) else none

def pwriteOrDie (dev : Device) (buf : Nat → UInt8) (count off : Int) : Option Device :=
  if Transfers dev count off then
    some { dev with byte := blit dev.byte off.toNat count.toNat buf }
  else none

/-! ## The super block -/

/-- `struct md_cpu` -/
structure MdCpu where
  laSect : Nat
  uuid : Fin 4 → Nat
  deviceUuid : Nat
  flags : Nat
  magic : Nat
  mdSizeSect : Nat
  alOffset : Int
  alNrExtents : Nat
  bmOffset : Int
  bmBytesPerBit : Nat
  laPeerMaxBioSize : Nat
  alStripes : Nat
  alStripeSize4k : Nat

def mdMagic08 : Nat := 0x83740267 + 4
def mdMagic84Unclean : Nat := 0x83740267 + 5

/-- `MD_AL_OFFSET_07`: the sectors of the super block. -/
def mdAlOffset07 : Nat := 8

/-- `MD_BM_OFFSET_07` -/
def mdBmOffset07 : Nat := mdAlOffset07 + 64

/-- `MD_BM_MAX_BYTE_FLEX >> 9` -/
def mdBmMaxSectFlex : Nat := 2 ^ 35 / 512

def mdDisk08ToCpu (buf : Nat → UInt8) : MdCpu :=
  let stripes := beNat buf 88 4
  let size4k := beNat buf 92 4
  let unset := stripes = 0 ∧ size4k = 0
  { laSect := beNat buf 0 8
    uuid := fun i => beNat buf (8 + 8 * i) 8
    deviceUuid := beNat buf 40 8
    flags := beNat buf 56 4
    magic := beNat buf 60 4
    mdSizeSect := beNat buf 64 4
    alOffset := signed 32 (beNat buf 68 4)
    alNrExtents := beNat buf 72 4
    bmOffset := signed 32 (beNat buf 76 4)
    bmBytesPerBit := beNat buf 80 4
    laPeerMaxBioSize := beNat buf 84 4
    -- not set: the old fixed size activity log
    alStripes := if unset then 1 else stripes
    alStripeSize4k := if unset then 8 else size4k }

def mdCpuToDisk08 (md : MdCpu) : Nat → UInt8 := fun i =>
  (beBytes 8 md.laSect ++ (List.finRange 4).flatMap (fun i => beBytes 8 (md.uuid i))
    ++ beBytes 8 md.deviceUuid ++ beBytes 8 0 ++ beBytes 4 md.flags ++ beBytes 4 md.magic
    ++ beBytes 4 md.mdSizeSect ++ beBytes 4 (unsigned 32 md.alOffset) ++ beBytes 4 md.alNrExtents
    ++ beBytes 4 (unsigned 32 md.bmOffset) ++ beBytes 4 md.bmBytesPerBit
    ++ beBytes 4 md.laPeerMaxBioSize ++ beBytes 4 md.alStripes ++ beBytes 4 md.alStripeSize4k).getD i 0

/-- `al_size_sect`, an `int` computed from two `uint32_t` -/
def alSizeSect (md : MdCpu) : Int := signed 32 (md.alStripes * md.alStripeSize4k * 8 : Nat)

/-- The bitmap sectors for a device of this size, in 4 KiB blocks: a sector for every 16 MB. -/
def bmSizeSect (llSize : Nat) : Nat := ((llSize + 2 ^ 24 - 1) % 2 ^ 64 / 2 ^ 24 + 7) / 8 * 8

/-- `md_size_sect` of flexible-size internal meta data -/
def flexMdSizeSect (md : MdCpu) (llSize : Nat) : Nat :=
  unsigned 64 (bmSizeSect llSize + (mdAlOffset07 + alSizeSect md))

/-- The checks for `Drbd_08` and `DRBD_MD_INDEX_FLEX_INT`. -/
def IsValidMd (md : MdCpu) (llSize : Nat) : Prop :=
  (md.magic = mdMagic08 ∨ md.magic = mdMagic84Unclean) ∧
    md.alOffset = signed 32 (-alSizeSect md) ∧
    md.bmOffset = -signed 64 (flexMdSizeSect md llSize) + mdAlOffset07 ∧
    md.mdSizeSect = flexMdSizeSect md llSize

instance (md : MdCpu) (llSize : Nat) : Decidable (IsValidMd md llSize) :=
  inferInstanceAs (Decidable (_ ∧ _))

/-! ## Finding it -/

/-- What was stored about the device when its meta data was last written. -/
structure LkBd where
  bdSize : Nat
  bdUuid : Nat

/-- `struct format`; the tool allocates it zeroed. -/
structure Format where
  bdSize : Nat
  mdOffset : Nat
  alOffset : Nat
  bmOffset : Nat
  maxUsableSect : Nat
  md : MdCpu
  lkBd : LkBd

def MdCpu.zero : MdCpu where
  laSect := 0
  uuid _ := 0
  deviceUuid := 0
  flags := 0
  magic := 0
  mdSizeSect := 0
  alOffset := 0
  alNrExtents := 0
  bmOffset := 0
  bmBytesPerBit := 0
  laPeerMaxBioSize := 0
  alStripes := 0
  alStripeSize4k := 0

def Format.zero : Format := ⟨0, 0, 0, 0, 0, .zero, ⟨0, 0⟩⟩

/-- The last 4 KiB block of the device. -/
def mdGetByteOffset (bdSize : Nat) : Nat := unsigned 64 (bdSize - 4096) / 4096 * 4096

/-- The byte offsets of the two areas, from the sector offsets of the super block. -/
def Format.setOffsets (cfg : Format) : Format :=
  let cfg := { cfg with
    alOffset := unsigned 64 (cfg.mdOffset + cfg.md.alOffset * 512)
    bmOffset := unsigned 64 (cfg.mdOffset + cfg.md.bmOffset * 512) }
  { cfg with maxUsableSect := min cfg.mdOffset (min cfg.alOffset cfg.bmOffset) / 512 }

/-- `v08_md_disk_to_cpu()`; the format is left alone when nothing valid is there. -/
def v08MdDiskToCpu (dev : Device) (cfg : Format) : Option (Bool × Format) := do
  let buf ← preadOrDie dev 4096 (signed 64 cfg.mdOffset)
  let md := mdDisk08ToCpu buf
  if IsValidMd md cfg.bdSize then some (true, { cfg with md := md }) else some (false, cfg)

def clipLaSect (cfg : Format) : Format :=
  { cfg with md := { cfg.md with laSect := min cfg.md.laSect cfg.maxUsableSect } }

def v07StyleMdOpen (dev : Device) (cfg : Format) : Option (Bool × Format) := do
  let cfg := { cfg with bdSize := dev.size }
  if cfg.bdSize / 512 < mdBmOffset07 then none else
  let cfg := { cfg with mdOffset := mdGetByteOffset cfg.bdSize }
  if cfg.mdOffset > cfg.bdSize - 4096 then none else
  let (ok, cfg) ← v08MdDiskToCpu dev cfg
  if ok then
    let bytesPerBit := if cfg.md.bmBytesPerBit = 0 then 4096 else cfg.md.bmBytesPerBit
    let cfg := { cfg with md := { cfg.md with bmBytesPerBit := bytesPerBit } }
    some (true, clipLaSect cfg.setOffsets)
  else some (false, cfg)

/-- `lk` is what `lk_bdev_load()` finds. -/
def v08CheckForResize (lk : Option LkBd) (force : Bool) (dev : Device) (cfg : Format) : Option Format :=
  match lk with
  | none => some cfg
  | some lk => do
      let cfg := { cfg with lkBd := lk }
      if lk.bdSize = cfg.bdSize then some cfg else
      let flexOffset := mdGetByteOffset lk.bdSize
      if flexOffset < cfg.bdSize then
        let buf ← preadOrDie dev 4096 (signed 64 flexOffset)
        let md := mdDisk08ToCpu buf
        let differ := lk.bdUuid ≠ 0 ∧ md.deviceUuid ≠ lk.bdUuid
        if IsValidMd md lk.bdSize ∧ (differ → force) then some { cfg with md := md } else some cfg
      else some cfg

inductive MdOpen
  | validMdFound
  | noValidMdFound
  | validMdFoundAtLastKnownLocation
deriving Repr, DecidableEq

def v08MdOpen (lk : Option LkBd) (force : Bool) (dev : Device) (cfg : Format) :
    Option (MdOpen × Format) := do
  let (ok, cfg) ← v07StyleMdOpen dev cfg
  if ok then some (.validMdFound, cfg) else
  let cfg ← v08CheckForResize lk force dev cfg
  if cfg.lkBd.bdSize = 0 ∨ cfg.md.magic = 0 then some (.noValidMdFound, cfg)
  else some (.validMdFoundAtLastKnownLocation, cfg)

/-! ## Moving it -/

/-- `re_initialize_md_offsets()` -/
def reInitializeMdOffsets (cfg : Format) : Option Format :=
  if bmSizeSect cfg.bdSize > mdBmMaxSectFlex then none
  else
    let size := flexMdSizeSect cfg.md cfg.bdSize
    some { cfg with
      md := { cfg.md with
        alOffset := signed 32 (-alSizeSect cfg.md)
        mdSizeSect := unsigned 32 size
        bmOffset := signed 32 (-size + mdAlOffset07) } }.setOffsets

/-- `v08_md_cpu_to_disk()` with its return value -/
def v08MdCpuToDisk (cfg : Format) (dev : Device) : Option (Int × Device) :=
  if IsValidMd cfg.md cfg.bdSize then do
    let dev ← pwriteOrDie dev (mdCpuToDisk08 cfg.md) 4096 (signed 64 cfg.mdOffset)
    some (0, dev)
  else some (-1, dev)

/-- The activity log, in one piece. -/
def moveAl (cfg : Format) (oldOffset : Int) (dev : Device) : Option Device := do
  let curOffset := oldOffset + cfg.md.alOffset * 512
  let buf ← preadOrDie dev (oldOffset - curOffset) curOffset
  pwriteOrDie dev buf (oldOffset - curOffset) (signed 64 cfg.alOffset)

/-- The chunks of the bitmap that fill the buffer, from the end. -/
def moveChunks (bmOffset oldBmOffset : Int) : Nat → Device → Int → Option (Device × Int)
  | 0, dev, cur => some (dev, cur)
  | fuel + 1, dev, cur =>
      if cur > oldBmOffset then do
        let buf ← preadOrDie dev bufferSize cur
        let dev ← pwriteOrDie dev buf bufferSize (bmOffset + (cur - oldBmOffset))
        moveChunks bmOffset oldBmOffset fuel dev (cur - bufferSize)
      else some (dev, cur)

/-- The turns the loop can take from this offset on. -/
def chunkFuel (oldBmOffset cur : Int) : Nat := ((cur - oldBmOffset) / bufferSize).toNat + 1

def moveBitmap (cfg : Format) (oldOffset : Int) (dev : Device) : Option Device := do
  let oldBmOffset := oldOffset + cfg.md.bmOffset * 512
  let curOffset := oldOffset + cfg.md.alOffset * 512 - bufferSize
  let (dev, curOffset) ← moveChunks (signed 64 cfg.bmOffset) oldBmOffset
    (chunkFuel oldBmOffset curOffset) dev curOffset
  let lastChunkSize := bufferSize - (oldBmOffset - curOffset)
  let buf ← preadOrDie dev lastChunkSize oldBmOffset
  pwriteOrDie dev buf lastChunkSize (signed 64 cfg.bmOffset)

/-- The new super block, and the wiping of the old one. -/
def moveSuperBlock (cfg : Format) (oldOffset : Int) (dev : Device) : Option (Int × Device) := do
  let cfg ← reInitializeMdOffsets cfg
  let (err, dev) ← v08MdCpuToDisk cfg dev
  if err = 0 ∧ unsigned 64 oldOffset < cfg.bmOffset then
    let dev ← pwriteOrDie dev (fun _ => 0) 4096 oldOffset
    some (err, dev)
  else some (err, dev)

/-- `v08_move_internal_md_after_resize()` -/
def v08MoveInternalMdAfterResize (cfg : Format) (dev : Device) : Option (Int × Device) := do
  if ¬ cfg.lkBd.bdSize ≤ cfg.bdSize then none else
  let oldOffset : Int := signed 64 (mdGetByteOffset cfg.lkBd.bdSize)
  if ¬ IsValidMd cfg.md cfg.lkBd.bdSize then none else
  let dev ← moveAl cfg oldOffset dev
  let dev ← moveBitmap cfg oldOffset dev
  moveSuperBlock cfg oldOffset dev

end Drbd.Meta
