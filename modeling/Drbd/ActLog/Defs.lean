import Drbd.Lib.Serial
import Drbd.Lru.Defs
import Mathlib.Logic.Function.Basic

/-!
# The activity log of drbd_actlog.c and its replay in drbdmeta.c

Each transaction fills one block of a ring on disk: the slots it changes, and a share of all others as
context. After a crash the replayer looks for the oldest and the newest block by their numbers and then
walks from one to the other by their positions.
-/

namespace Drbd.ActLog

open Lru Lib

def AL_UPDATES_PER_TRANSACTION : Nat := 64
def AL_CONTEXT_PER_TRANSACTION : Nat := 919
def AL_EXTENTS_MAX : Nat := 65534
def DRBD_AL_EXTENTS_MIN : Nat := 7
def AL_TR_UPDATE : Nat := 0
def AL_TR_INITIALIZED : Nat := 0xffff

/-! ## The ring -/

/-- A striping that `check_activity_log_stripe_size` accepts. -/
structure Layout where
  alStripes : Nat
  alStripeSize4k : Nat
  lower : 64 / 8 ≤ alStripes * alStripeSize4k
  upper : alStripes * alStripeSize4k ≤ 16 * 1024 * 1024 / 4

def Layout.alSize4k (md : Layout) : Nat := md.alStripes * md.alStripeSize4k

def drbdAlExtentsMax (md : Layout) : Nat :=
  let sufficientOnDisk := (AL_EXTENTS_MAX + AL_CONTEXT_PER_TRANSACTION - 1) / AL_CONTEXT_PER_TRANSACTION
  if sufficientOnDisk < md.alSize4k then AL_EXTENTS_MAX
  else (md.alSize4k - 1) * AL_CONTEXT_PER_TRANSACTION

/-- `al_tr_number_to_on_disk_sector`, counted from the start of the activity log. -/
def alTrNumberToOnDiskSector (md : Layout) (alTrNumber : Nat) : Nat :=
  let t := alTrNumber % md.alSize4k
  let t := (t % md.alStripes) * md.alStripeSize4k + t / md.alStripes
  t * 8

/-- A block as `v84_al_disk_to_cpu` reads it; `isValid` is its verdict on magic and checksum. -/
structure AlBlock where
  isValid : Bool
  trNumber : Nat
  transactionType : Nat
  nUpdates : Nat
  contextSize : Nat
  contextStartSlotNr : Nat
  updateSlotNr : Nat → Nat
  updateExtentNr : Nat → Nat
  context : Nat → Nat

/-- What `drbd_initialize_al` and `initialize_al` write to every block. -/
def initializedBlock : AlBlock where
  isValid := true
  trNumber := 0
  transactionType := AL_TR_INITIALIZED
  nUpdates := 0
  contextSize := 0
  contextStartSlotNr := 0
  updateSlotNr _ := 0
  updateExtentNr _ := 0
  context _ := 0

/-! ## Writing -/

/-- A device with a local disk: the counters outlive a detach, the rest belongs to the attached disk. -/
structure Device where
  md : Layout
  alTrNumber : Nat
  alTrCycle : Nat
  nrElements : Nat
  lcNumber : Nat → Nat
  disk : Nat → AlBlock

/-- The buffer `_al_write_transaction` fills; `toBeChanged` lists index and new number. -/
def fillTransaction (d : Device) (toBeChanged : List (Nat × Nat)) : AlBlock where
  isValid := true
  trNumber := d.alTrNumber
  transactionType := AL_TR_UPDATE
  nUpdates := toBeChanged.length % 2 ^ 16
  contextSize := d.nrElements % 2 ^ 16
  contextStartSlotNr := d.alTrCycle % 2 ^ 16
  updateSlotNr i := ((toBeChanged[i]?).map fun c => c.1 % 2 ^ 16).getD (2 ^ 16 - 1)
  updateExtentNr i := ((toBeChanged[i]?).map fun c => c.2 % 2 ^ 32).getD LC_FREE
  context i :=
    if i < min AL_CONTEXT_PER_TRANSACTION (d.nrElements - d.alTrCycle) then d.lcNumber (d.alTrCycle + i)
    else LC_FREE

def nextCycle (d : Device) : Nat :=
  let alTrCycle := d.alTrCycle + AL_CONTEXT_PER_TRANSACTION
  if d.nrElements ≤ alTrCycle then 0 else alTrCycle

/-- `_al_write_transaction` without an I/O error: the block is on disk. -/
def alWriteTransaction (d : Device) (toBeChanged : List (Nat × Nat)) : Device :=
  { d with
    alTrCycle := nextCycle d
    disk := Function.update d.disk (alTrNumberToOnDiskSector d.md d.alTrNumber / 8)
      (fillTransaction d toBeChanged)
    alTrNumber := (d.alTrNumber + 1) % 2 ^ 32 }

def lcCommitted (lcNumber : Nat → Nat) (toBeChanged : List (Nat × Nat)) : Nat → Nat :=
  toBeChanged.foldl (fun f c => Function.update f c.1 c.2) lcNumber

/-- The elements a transaction may find on `to_be_changed`. -/
def Pending (d : Device) (toBeChanged : List (Nat × Nat)) : Prop :=
  0 < toBeChanged.length ∧ toBeChanged.length ≤ AL_UPDATES_PER_TRANSACTION ∧
    ∀ c ∈ toBeChanged, c.1 < d.nrElements ∧ c.2 < 2 ^ 32

instance (d : Device) (toBeChanged : List (Nat × Nat)) : Decidable (Pending d toBeChanged) :=
  inferInstanceAs (Decidable (_ ∧ _ ∧ _))

/-- The limits on al-extents in `drbd_adm_attach` and `drbd_adm_disk_opts`. -/
def clampAlExtents (md : Layout) (alExtents : Nat) : Nat :=
  min (max alExtents DRBD_AL_EXTENTS_MIN) (drbdAlExtentsMax md)

inductive Event
  | beginIoCommit (toBeChanged : List (Nat × Nat))
  | lcDel (slot : Nat)
  | diskOpts (alExtents : Nat)
  | attach (md : Layout) (alExtents : Nat)

/-- An attach finds the ring as apply-al has left it, each block initialized. A new al layout does the
same to an attached device. -/
def attached (alTrNumber alTrCycle : Nat) (md : Layout) (alExtents : Nat) : Device where
  md := md
  alTrNumber := alTrNumber
  alTrCycle := alTrCycle
  nrElements := clampAlExtents md alExtents
  lcNumber _ := LC_FREE
  disk _ := initializedBlock

def step (d : Device) : Event → Option Device
  | .beginIoCommit toBeChanged =>
      if Pending d toBeChanged then
        some { alWriteTransaction d toBeChanged with lcNumber := lcCommitted d.lcNumber toBeChanged }
      else none
  | .lcDel slot => some { d with lcNumber := Function.update d.lcNumber slot LC_FREE }
  | .diskOpts alExtents =>
      -- `drbd_al_shrink`, then a new and empty cache
      some { d with nrElements := clampAlExtents d.md alExtents, lcNumber := fun _ => LC_FREE }
  | .attach md alExtents => some (attached d.alTrNumber d.alTrCycle md alExtents)

/-- The device as it is created, attached for the first time. -/
def boot (md : Layout) (alExtents : Nat) : Device := attached 0 0 md alExtents

/-! ## Replaying -/

def alTrNumberToOnDiskSlot (md : Layout) (b mx : Nat) : Nat :=
  let t := b % mx
  (t % md.alStripes) * md.alStripeSize4k + t / md.alStripes

structure AlCursor where
  i : Nat
  trNumber : Nat
deriving DecidableEq, Repr

structure Scan where
  foundValid : Nat
  foundValidUpdates : Nat
  oldest : AlCursor
  newest : AlCursor
deriving DecidableEq, Repr

/-- The two comparisons of a further update with the cursors. -/
def Scan.widen (s : Scan) (here : AlCursor) : Scan :=
  { s with
    oldest := if SerialLt here.trNumber s.oldest.trNumber then here else s.oldest
    newest := if SerialGt here.trNumber s.newest.trNumber then here else s.newest }

/-- One round of the first loop of `replay_al_84`. -/
def scanBlock (alCpu : Nat → AlBlock) (s : Scan) (b : Nat) : Scan :=
  if (alCpu b).isValid = false then s
  else
    let s := { s with foundValid := s.foundValid + 1 }
    if (alCpu b).transactionType = AL_TR_INITIALIZED then s
    else
      let s := { s with foundValidUpdates := s.foundValidUpdates + 1 }
      let here : AlCursor := ⟨b, (alCpu b).trNumber⟩
      if s.foundValidUpdates = 1 then { s with oldest := here, newest := here }
      else s.widen here

def scan (alCpu : Nat → AlBlock) (mx : Nat) : Scan :=
  (List.range mx).foldl (scanBlock alCpu) ⟨0, 0, ⟨0, 0⟩, ⟨0, 0⟩⟩

def replayContext (blk : AlBlock) (hot : Nat → Nat) (i : Nat) : Nat → Nat :=
  let slot := blk.contextStartSlotNr + i
  if blk.context i = LC_FREE ∧ blk.contextSize ≤ slot then hot
  else if AL_EXTENTS_MAX ≤ slot then hot
  else Function.update hot slot (blk.context i)

def replayUpdate (blk : AlBlock) (hot : Nat → Nat) (i : Nat) : Nat → Nat :=
  let slot := blk.updateSlotNr i
  if blk.nUpdates ≤ i ∧ slot = 2 ^ 16 - 1 then hot
  else if AL_EXTENTS_MAX ≤ slot then hot
  else Function.update hot slot (blk.updateExtentNr i)

/-- One round of the second loop: first the context, then the updates. -/
def replayBlock (hot : Nat → Nat) (blk : AlBlock) : Nat → Nat :=
  if blk.isValid = false ∨ blk.transactionType = AL_TR_INITIALIZED then hot
  else
    let hot := (List.range AL_CONTEXT_PER_TRANSACTION).foldl (replayContext blk) hot
    (List.range AL_UPDATES_PER_TRANSACTION).foldl (replayUpdate blk) hot

inductive ReplayError
  | enodata
  | einval
deriving DecidableEq, Repr

/-- `replay_al_84`: the number of updates found, and the hot extents by slot. -/
def replayAl84 (md : Layout) (disk : Nat → AlBlock) : Except ReplayError (Nat × (Nat → Nat)) :=
  let mx := md.alSize4k
  let alCpu b := disk (alTrNumberToOnDiskSlot md b mx)
  let s := scan alCpu mx
  let unused : Nat → Nat := fun _ => LC_FREE
  if s.foundValid = 0 then .error .enodata
  else if s.foundValidUpdates = 0 then
    if s.foundValid = mx then .ok (0, unused)
    else if (alCpu 0).isValid = false ∧ s.foundValid = mx - 1 then .ok (0, unused)
    else .error .einval
  else
    let last := if s.newest.i < s.oldest.i then s.newest.i + mx else s.newest.i
    let walk := List.range' s.oldest.i (last + 1 - s.oldest.i)
    .ok (s.foundValidUpdates, walk.foldl (fun hot b => replayBlock hot (alCpu (b % mx))) unused)

/-! ## Crashes -/

inductive Crash
  | quiet
  | torn (toBeChanged : List (Nat × Nat)) (junk : AlBlock)

/-- What the crash leaves on disk: of a transaction under way, a block whose checksum is wrong. -/
def Crash.disk (d : Device) : Crash → Option (Nat → AlBlock)
  | .quiet => some d.disk
  | .torn toBeChanged junk =>
      if Pending d toBeChanged ∧ junk.isValid = false then
        some (Function.update d.disk (alTrNumberToOnDiskSector d.md d.alTrNumber / 8) junk)
      else none

/-- The extents active after the last committed transaction. -/
def Active (d : Device) (enr : Nat) : Prop :=
  enr ≠ LC_FREE ∧ ∃ slot < d.nrElements, d.lcNumber slot = enr

/-- The replay gives a set of hot extents, and every active one is in it. -/
def Recovers (d : Device) (disk : Nat → AlBlock) : Prop :=
  ∃ n hot, replayAl84 d.md disk = .ok (n, hot) ∧
    ∀ enr, Active d enr → 0 < n ∧ ∃ slot < AL_EXTENTS_MAX, hot slot = enr

/-! ## What the replay relies on -/

/-- No block of the ring holds an update. -/
def Fresh (d : Device) : Prop :=
  ∀ b < d.md.alSize4k,
    (d.disk (alTrNumberToOnDiskSlot d.md b d.md.alSize4k)).transactionType = AL_TR_INITIALIZED

/-- The block after the one with the highest number is next to it on the ring. -/
def InPlace (d : Device) : Prop :=
  d.alTrNumber = 0 → 2 ^ 32 % d.md.alSize4k = 0 ∨ Fresh d

instance (d : Device) : Decidable (Fresh d) := inferInstanceAs (Decidable (∀ b < d.md.alSize4k, _))
instance (d : Device) : Decidable (InPlace d) := inferInstanceAs (Decidable (_ → _ ∨ _))

def Keeps (d : Device) : Event → Prop
  | .beginIoCommit _ => InPlace d
  | _ => True

/-- A torn block on a fresh ring has to be the block the replayer takes for the first one. -/
def Crash.Keeps (d : Device) : Crash → Prop
  | .quiet => True
  | .torn _ _ => InPlace d ∧ (Fresh d → d.alTrNumber % d.md.alSize4k = 0)

end Drbd.ActLog
