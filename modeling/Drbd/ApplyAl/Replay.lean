import Drbd.ActLog.Defs
import Drbd.ApplyAl.Defs

/-!
# Replaying whatever is on disk

`meta_apply_al` on a super block that was accepted. The arrays have fixed lengths, the loops run as far as
the super block says. No result is an access outside of an array or of `on_disk_buffer`, or a division
by zero; memory for `al_cpu` is there.
-/

namespace Drbd.ApplyAl

open Lib ActLog

def MD_AL_MAX_SECT_07 : Nat := 64
def AL_EXTENTS_PT : Nat := 61
def DRBD_MAGIC : Nat := 0x83740267
def DRBD_AL_MAGIC : Nat := 0x69cb65a2

inductive Version
  | v07
  | v08
deriving DecidableEq, Repr

/-- `struct format`, as far as `apply-al` goes. -/
structure Cfg where
  version : Version
  md : Meta.MdCpu
  /-- `md.gc[Flags]` of v07. -/
  gcFlags : Nat
  alOffset : Nat
  bitmap : Format

/-- `MDF_PRIMARY_IND` -/
def Cfg.needToApplyAl (cfg : Cfg) : Bool :=
  match cfg.version with
  | .v08 => cfg.md.flags.testBit 1
  | .v07 => cfg.gcFlags.testBit 1

/-- `hot_extent` has `AL_EXTENTS_MAX` elements; a slot that is too large is reported and skipped. -/
def setHotExtent (hot : Nat → Nat) (slot extent : Nat) : Option (Nat → Nat) :=
  if AL_EXTENTS_MAX ≤ slot then some hot
  else if slot < AL_EXTENTS_MAX then some (Function.update hot slot extent)
  else none

/-! ## The old format -/

/-- `struct al_sector_cpu`, and whether it is valid. -/
structure AlSector where
  valid : Bool
  trNumber : Nat
  pos : Nat → Nat
  extent : Nat → Nat

def v07AlDiskToCpu (alDisk : Nat → UInt8) (off : Nat) : AlSector :=
  let extent i := beNat alDisk (off + 8 + 8 * i + 4) 4
  { valid := decide (beNat alDisk off 4 = DRBD_MAGIC ∧
      beNat alDisk (off + 504) 4 = (List.range 62).foldl (fun xorSum i => xorSum ^^^ extent i) 0)
    trNumber := beNat alDisk (off + 4) 4
    pos i := beNat alDisk (off + 8 + 8 * i) 4
    extent := extent }

/-- The counter and the cursors after one more sector. -/
def foundSector (s : Scan) (b : Nat) (here : AlSector) : Scan :=
  if here.valid = false then s
  else
    let s := { s with foundValid := s.foundValid + 1 }
    if s.foundValid = 1 then { s with oldest := ⟨b, here.trNumber⟩, newest := ⟨b, here.trNumber⟩ }
    else s.widen ⟨b, here.trNumber⟩

/-- `al_cpu[b]` and `valid[b]`, from `al_disk + b`. -/
def scanSector (alDisk : Nat → UInt8) (st : (Nat → AlSector) × Scan) (b : Nat) : Option ((Nat → AlSector) × Scan) :=
  if b < MD_AL_MAX_SECT_07 ∧ (b + 1) * 512 ≤ Meta.bufferSize then
    let here := v07AlDiskToCpu alDisk (b * 512)
    some (Function.update st.1 b here, foundSector st.2 b here)
  else none

def replaySectorUpdate (here : AlSector) (hot : Nat → Nat) (i : Nat) : Option (Nat → Nat) :=
  if here.extent i = unused then some hot else setHotExtent hot (here.pos i) (here.extent i)

/-- Both context and update; the one update is at index 0 and comes last. -/
def replaySector (mx : Nat) (alCpu : Nat → AlSector) (hot : Nat → Nat) (b : Nat) : Option (Nat → Nat) :=
  if mx = 0 ∨ MD_AL_MAX_SECT_07 ≤ b % mx then none
  else if (alCpu (b % mx)).valid = false then some hot
  else (List.range (AL_EXTENTS_PT + 1)).reverse.foldlM (replaySectorUpdate (alCpu (b % mx))) hot

def noSector : AlSector := ⟨false, 0, fun _ => 0, fun _ => 0⟩

/-- From the oldest block to the newest, around the ring. -/
def walk (s : Scan) (mx : Nat) : List Nat :=
  let last := if s.newest.i < s.oldest.i then (s.newest.i + mx) % 2 ^ 32 else s.newest.i
  List.range' s.oldest.i (last + 1 - s.oldest.i)

/-- `mx` of `replay_al_07`, in 32 bits. -/
def sectors07 (alNrExtents : Nat) : Nat :=
  1 + (alNrExtents + AL_EXTENTS_PT - 1) % 2 ^ 32 / AL_EXTENTS_PT

/-- The loops of `replay_al_07`. -/
def replaySectors (mx : Nat) (alDisk : Nat → UInt8) : Option (Nat × (Nat → Nat)) :=
  ((List.range mx).foldlM (scanSector alDisk) (fun _ => noSector, ⟨0, 0, ⟨0, 0⟩, ⟨0, 0⟩⟩)).bind fun (alCpu, s) =>
    if s.foundValid = 0 then some (0, fun _ => unused)
    else ((walk s mx).foldlM (replaySector mx alCpu) fun _ => unused).map fun hot => (s.foundValid, hot)

def replayAl07 (alNrExtents : Nat) (alDisk : Nat → UInt8) : Option (Nat × (Nat → Nat)) :=
  replaySectors (sectors07 alNrExtents) alDisk

/-! ## The 8.4 format -/

variable (crc32c : (Nat → UInt8) → Nat)

/-- The checksum is over the 4k of the block, with its own field set to 0. -/
def v84AlDiskToCpu (alDisk : Nat → UInt8) (off : Nat) : AlBlock where
  isValid := decide (beNat alDisk off 4 = DRBD_AL_MAGIC ∧
    beNat alDisk (off + 8) 4 = crc32c (blit (fun i => alDisk (off + i)) 8 4 fun _ => 0))
  trNumber := beNat alDisk (off + 4) 4
  transactionType := beNat alDisk (off + 12) 2
  nUpdates := beNat alDisk (off + 14) 2
  contextSize := beNat alDisk (off + 16) 2
  contextStartSlotNr := beNat alDisk (off + 18) 2
  updateSlotNr i := beNat alDisk (off + 36 + 2 * i) 2
  updateExtentNr i := beNat alDisk (off + 164 + 4 * i) 4
  context i := beNat alDisk (off + 420 + 4 * i) 4

/-- `al_stripes * al_stripe_size_4k`, in 32 bits. -/
def blocks84 (md : Meta.MdCpu) : Nat := md.alStripes * md.alStripeSize4k % 2 ^ 32

def alTrNumberToOnDiskSlot (md : Meta.MdCpu) (b mx : Nat) : Option Nat :=
  if mx = 0 ∨ md.alStripes = 0 then none
  else some ((b % mx % md.alStripes * md.alStripeSize4k + b % mx / md.alStripes) % 2 ^ 32)

structure Pass where
  alCpu : Nat → AlBlock
  scan : Scan
  alDisk : Nat → UInt8

/-- `al_cpu[b]`, from `al_disk + o`; the checksum field of the buffer is cleared on the way. -/
def passBlock (md : Meta.MdCpu) (mx : Nat) (p : Pass) (b : Nat) : Option Pass :=
  match alTrNumberToOnDiskSlot md b mx with
  | none => none
  | some o =>
      if b < mx ∧ (o + 1) * 4096 ≤ Meta.bufferSize then
        let alCpu := Function.update p.alCpu b (v84AlDiskToCpu crc32c p.alDisk (o * 4096))
        some ⟨alCpu, scanBlock alCpu p.scan b, blit p.alDisk (o * 4096 + 8) 4 fun _ => 0⟩
      else none

def replayBlockContext (here : AlBlock) (hot : Nat → Nat) (i : Nat) : Option (Nat → Nat) :=
  let slot := here.contextStartSlotNr + i
  if here.context i = unused ∧ here.contextSize ≤ slot then some hot
  else setHotExtent hot slot (here.context i)

def replayBlockUpdate (here : AlBlock) (hot : Nat → Nat) (i : Nat) : Option (Nat → Nat) :=
  let slot := here.updateSlotNr i
  if here.nUpdates ≤ i ∧ slot = 2 ^ 16 - 1 then some hot
  else setHotExtent hot slot (here.updateExtentNr i)

def replayBlockAt (mx : Nat) (alCpu : Nat → AlBlock) (hot : Nat → Nat) (b : Nat) : Option (Nat → Nat) :=
  if mx = 0 ∨ mx ≤ b % mx then none
  else
    let here := alCpu (b % mx)
    if here.isValid = false ∨ here.transactionType = AL_TR_INITIALIZED then some hot
    else
      ((List.range AL_CONTEXT_PER_TRANSACTION).foldlM (replayBlockContext here) hot).bind
        ((List.range AL_UPDATES_PER_TRANSACTION).foldlM (replayBlockUpdate here))

def replayAl84 (md : Meta.MdCpu) (alDisk : Nat → UInt8) : Option (Except ReplayError (Nat × (Nat → Nat))) :=
  let mx := blocks84 md
  ((List.range mx).foldlM (passBlock crc32c md mx) ⟨fun _ => initializedBlock, ⟨0, 0, ⟨0, 0⟩, ⟨0, 0⟩⟩, alDisk⟩).bind
    fun p =>
      if p.scan.foundValid = 0 then some (.error .enodata)
      else if p.scan.foundValidUpdates = 0 then
        if p.scan.foundValid = mx then some (.ok (0, fun _ => unused))
        -- al_cpu[0]
        else if mx = 0 then none
        else if (p.alCpu 0).isValid = false ∧ p.scan.foundValid = mx - 1 then some (.ok (0, fun _ => unused))
        else some (.error .einval)
      else ((walk p.scan mx).foldlM (replayBlockAt mx p.alCpu) fun _ => unused).map fun hot =>
        .ok (p.scan.foundValidUpdates, hot)

/-! ## A clean activity log -/

/-- One block of the loop; the checksum is calculated once. -/
def initializeBlock (st : (Nat → UInt8) × Nat) (i : Nat) : Option ((Nat → UInt8) × Nat) :=
  if (i + 1) * 4096 ≤ Meta.bufferSize then
    let buf := blit st.1 (i * 4096) 4 fun x => (beBytes 4 DRBD_AL_MAGIC).getD x 0
    let buf := blit buf (i * 4096 + 12) 2 fun x => (beBytes 2 AL_TR_INITIALIZED).getD x 0
    let crc := if i = 0 then crc32c fun x => buf (i * 4096 + x) else st.2
    some (blit buf (i * 4096 + 8) 4 fun x => (beBytes 4 crc).getD x 0, crc)
  else none

/-- `initialize_al`: the device with the new activity log. -/
def initializeAl (cfg : Cfg) (dev onDiskBuffer : Nat → UInt8) : Option (Nat → UInt8) :=
  let mx := blocks84 cfg.md
  let alSize := mx * 4096 % 2 ^ 32
  if Meta.bufferSize < alSize then none
  else
    let buf := blit onDiskBuffer 0 alSize fun _ => 0
    match cfg.version with
    | .v07 => some (blit dev cfg.alOffset alSize buf)
    | .v08 =>
        ((List.range mx).foldlM (initializeBlock crc32c) (buf, 0)).map fun st => blit dev cfg.alOffset alSize st.1

/-! ## The command -/

/-- `on_disk_buffer` with the first chunk of the activity log, most often all of it. -/
def readAl (cfg : Cfg) (dev onDiskBuffer : Nat → UInt8) : Nat → UInt8 := fun x =>
  if x < min (cfg.md.alStripes * cfg.md.alStripeSize4k * 4096 % 2 ^ 32) Meta.bufferSize then dev (cfg.alOffset + x)
  else onDiskBuffer x

/-- Which format the activity log is taken for. -/
def Cfg.Old (cfg : Cfg) (alDisk : Nat → UInt8) : Prop :=
  cfg.version = .v07 ∨ ¬ (cfg.md.magic = Meta.mdMagic84Unclean ∨ beNat alDisk 0 4 = DRBD_AL_MAGIC ∨
    beNat alDisk 4096 4 = DRBD_AL_MAGIC ∨ cfg.md.alStripes ≠ 1 ∨ cfg.md.alStripeSize4k ≠ 8)

instance (cfg : Cfg) (alDisk : Nat → UInt8) : Decidable (cfg.Old alDisk) :=
  inferInstanceAs (Decidable (_ ∨ ¬ (_ ∨ _ ∨ _ ∨ _ ∨ _)))

def sorted (hot : Nat → Nat) : List Nat :=
  ((List.range AL_EXTENTS_MAX).map hot).mergeSort (· ≤ ·)

/-- `meta_apply_al` once the meta data was found, less the update of the flags: the exit code and the device. -/
def metaApplyAl (cfg : Cfg) (dev onDiskBuffer : Nat → UInt8) : Option (Nat × (Nat → UInt8)) :=
  let alDisk := readAl cfg dev onDiskBuffer
  let replayed :=
    if cfg.Old alDisk then (replayAl07 cfg.md.alNrExtents alDisk).map .ok else replayAl84 crc32c cfg.md alDisk
  let reInitializeAnyways := cfg.Old alDisk ∧ cfg.version = .v08
  replayed.bind fun
    | .error e =>
        if cfg.needToApplyAl then some (if e = .enodata then 1 else 2, dev)
        else if reInitializeAnyways ∨ cfg.version = .v08 then
          (initializeAl crc32c cfg dev alDisk).map fun dev => (0, dev)
        else some (0, dev)
    | .ok (found, hot) =>
        (if 0 < found ∧ cfg.needToApplyAl then applyAl cfg.bitmap dev alDisk (sorted hot) else some dev).bind fun dev =>
          if reInitializeAnyways ∨ (0 < found ∧ cfg.version ≠ .v07) then
            (initializeAl crc32c cfg dev alDisk).map fun dev => (0, dev)
          else some (0, dev)

end Drbd.ApplyAl
