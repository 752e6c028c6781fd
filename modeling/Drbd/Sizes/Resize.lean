import Drbd.ActLog.Defs
import Drbd.Bitmap.Store
import Drbd.Sizes.Theorems

/-!
# Setting the size of the device

`drbd_determine_dev_size()` with all it changes: the layout of the meta data, the bitmap, the capacity and
what is on disk. It takes a new striping of the activity log as well.
-/

namespace Drbd.Sizes

open Lib State Layout

/-- What `drbd_md_write()` puts on disk, less what no resize changes. -/
structure SuperBlock where
  laSizeSect : Nat
  flags : Nat
  mdSizeSect : Nat
  alOffset : Int
  bmOffset : Int
  alStripes : Nat
  alStripeSize4k : Nat
deriving Repr, DecidableEq

/-- A device with an attached disk. -/
structure Device where
  dev : Devices
  md : DrbdMd
  flags : Nat
  bitmap : Bitmap.Store
  /-- `disk_conf->disk_size` -/
  diskSize : Nat
  /-- `drbd_get_capacity(device->this_bdev)` -/
  capacity : Nat
  pSize : Nat
  conn : Conn
  disk : Disk
  mdDirty : Bool
  superBlock : SuperBlock
  activityLog : Nat → ActLog.AlBlock
  capacity_aligned : capacity % 2 ^ 15 = 0

/-- What both nodes agree about. -/
def Device.node (d : Device) : Node where
  dev := d.dev
  md := d.md
  diskSize := d.diskSize
  capacity := d.capacity
  bmCapacity := d.bitmap.bmDevCapacity
  pSize := d.pSize
  conn := d.conn
  disk := d.disk
  capacity_aligned := d.capacity_aligned

/-- The members of `struct resize_parms` that are looked at; the stripe size is in kB. -/
structure ResizeParms where
  alStripes : Nat
  alStripeSize : Nat
deriving Repr, DecidableEq

structure DdsFlags where
  forced : Bool
  noResync : Bool
deriving Repr, DecidableEq

/-- The meta-data buffer, and what the bitmap gets for new pages. -/
structure Env where
  mdBuffer : Bool
  memory : Bool
  page : Nat → BitVec 64

/-- `enum determine_dev_size` -/
inductive Dds
  | errorShrink
  | errorSpaceMd
  | error
  | unchanged
  | shrunk
  | grew
  | grewFromZero
deriving Repr, DecidableEq

def Dds.IsError : Dds → Prop
  | .errorShrink | .errorSpaceMd | .error => True
  | .unchanged | .shrunk | .grew | .grewFromZero => False

instance : DecidablePred Dds.IsError
  | .errorShrink | .errorSpaceMd | .error => isTrue trivial
  | .unchanged | .shrunk | .grew | .grewFromZero => isFalse id

/-- The outcome, from the size and the one last agreed on. -/
def Dds.ofSize (size laSizeSect : Nat) : Dds :=
  if size > laSizeSect then if laSizeSect ≠ 0 then .grew else .grewFromZero
  else if size < laSizeSect then .shrunk
  else .unchanged

/-- `drbd_md_on_disk_bits()` -/
def mdOnDiskBits (md : DrbdMd) : Nat :=
  (if md.alOffset = 8 then unsigned 32 (md.mdSizeSect - md.bmOffset)
    else unsigned 64 (signed 32 (md.alOffset - md.bmOffset))) * 2 ^ 12 % 2 ^ 64

/-- The layout for the lower level devices as they are now, with the new striping if there is one. -/
def newLayout (dev : Devices) (md : DrbdMd) : Option ResizeParms → DrbdMd
  | none => mdSetSectorOffsets dev md
  | some rs =>
      mdSetSectorOffsets dev { md with
        alStripes := rs.alStripes
        alStripeSize4k := rs.alStripeSize / 4
        alSize4k := rs.alStripes * rs.alStripeSize / 4 % 2 ^ 32 }

/-- `err_out`: the striping is put back, if it was changed; `prev` is the layout from before. -/
def errOut (dev : Devices) (prev md : DrbdMd) : Option ResizeParms → DrbdMd
  | none => md
  | some _ =>
      mdSetSectorOffsets dev { md with
        alStripes := prev.alStripes
        alStripeSize4k := prev.alStripeSize4k
        alSize4k := prev.alStripes * prev.alStripeSize4k % 2 ^ 32 }

/-- `drbd_md_write()` -/
def Device.mdWrite (d : Device) : Device :=
  { d with superBlock :=
    ⟨d.capacity, d.flags, d.md.mdSizeSect, d.md.alOffset, d.md.bmOffset, d.md.alStripes, d.md.alStripeSize4k⟩ }

/-- `drbd_initialize_al()` -/
def Device.initializeAl (d : Device) : Device :=
  { d with activityLog := fun b =>
      if b < d.md.alStripes * d.md.alStripeSize4k % 2 ^ 32 then ActLog.initializedBlock else d.activityLog b }

/-- Write all of the meta data for the new size or place, with an empty activity log. While the bitmap is being
written, the flags on disk lack MDF_PRIMARY_IND. -/
def Device.writeAll (d : Device) (mdMoved : Bool) : Device :=
  let d' := { d with flags := d.flags &&& (2 ^ 32 - 1 - 2) }.mdWrite
  let d' := { d' with bitmap := Bitmap.drbdBmWrite d'.bitmap mdMoved }.initializeAl
  { d' with flags := d.flags }.mdWrite

/-- `drbd_set_my_capacity()` and the size last agreed on -/
def Device.setSize (d : Device) (size : Nat) : Device :=
  { d with
    capacity := roundCapacity size
    md := { d.md with laSizeSect := size }
    capacity_aligned := roundCapacity_aligned size }

/-- Bring the bitmap to the size. The room on disk is always looked at; `drbd_bm_resize` does so after a
`get_ldev()` that works. -/
def Device.bmResize (d : Device) (size : Nat) (fl : DdsFlags) (env : Env) : Except Bitmap.BmError Bitmap.Store :=
  Bitmap.drbdBmResize d.bitmap size (!fl.noResync) ⟨some (mdOnDiskBits d.md), env.memory, env.page⟩

/-- `drbd_determine_dev_size()` once the size is known: `prev` is the layout from before. -/
def Device.changeSize (d : Device) (prev : DrbdMd) (size : Nat) (fl : DdsFlags) (rs : Option ResizeParms) (env : Env) :
    Dds × Device :=
  let finish (d : Device) : Dds × Device :=
    let mdMoved := mdFirstSector d.dev prev ≠ mdFirstSector d.dev d.md ∨ prev.mdSizeSect ≠ d.md.mdSizeSect
    (.ofSize size prev.laSizeSect,
      if prev.laSizeSect ≠ d.md.laSizeSect ∨ mdMoved ∨ rs.isSome then d.writeAll mdMoved else d)
  if d.capacity ≠ size ∨ d.bitmap.bmDevCapacity ≠ size then
    match d.bmResize size fl env with
    | .ok bitmap => finish ({ d with bitmap := bitmap }.setSize size)
    | .error _ =>
        let d := d.setSize (d.bitmap.bmDevCapacity / 2)
        (.error, { d with md := errOut d.dev prev d.md rs })
  else finish d

def drbdDetermineDevSize (d : Device) (fl : DdsFlags) (rs : Option ResizeParms) (env : Env) : Dds × Device :=
  if env.mdBuffer = false then (.error, d)
  else
    let prev := d.md
    let d := { d with md := newLayout d.dev d.md rs }
    let size := newDevSize d.node d.diskSize fl.forced
    if size < prev.laSizeSect ∧ d.diskSize > size then
      (.errorSpaceMd, { d with md := errOut d.dev prev d.md rs })
    else if size < prev.laSizeSect ∧ rs.isSome ∧ d.diskSize = 0 then
      (.errorShrink, { d with md := errOut d.dev prev d.md rs })
    else d.changeSize prev size fl rs env

/-- `drbd_md_sync()`, with a disk that takes it -/
def Device.mdSync (d : Device) : Device :=
  if d.mdDirty then
    { d.mdWrite with mdDirty := false, md := { d.md with laSizeSect := d.capacity } }
  else d

/-! ## As the peer sees it -/

variable {d : Device} {fl : DdsFlags} {env : Env} {size : Nat}

theorem drbdBmWrite_bmDevCapacity (s : Bitmap.Store) (all : Bool) :
    (Bitmap.drbdBmWrite s all).bmDevCapacity = s.bmDevCapacity := by
  unfold Bitmap.drbdBmWrite
  generalize List.range s.bmNumberOfPages = pages
  induction pages generalizing s with
  | nil => rfl
  | cons page rest ih =>
      rw [List.foldl_cons, ih]
      unfold Bitmap.Store.writePage
      split <;> rfl

theorem drbdBmResize_bmDevCapacity {s s' : Bitmap.Store} {setNewBits : Bool} {surr : Bitmap.Surroundings}
    (h : Bitmap.drbdBmResize s size setNewBits surr = .ok s') : s'.bmDevCapacity = roundCapacity size := by
  unfold Bitmap.drbdBmResize at h
  dsimp only at h
  split at h
  · cases h
    exact Eq.symm ‹_›
  · split at h
    · cases h
      exact Eq.symm ‹_›
    · split at h
      · cases h
      · split at h
        · cases h
        · cases h
          rfl

@[simp]
theorem Device.writeAll_node (d : Device) (mdMoved : Bool) : (d.writeAll mdMoved).node = d.node := by
  unfold Device.node
  simp only [show (d.writeAll mdMoved).bitmap.bmDevCapacity = d.bitmap.bmDevCapacity from
    drbdBmWrite_bmDevCapacity _ mdMoved]
  rfl

/-- What may go wrong for the node, from what the device meets: the bitmap cannot be brought to the size. -/
def Device.luck (d : Device) (fl : DdsFlags) (env : Env) : Luck where
  mdBuffer := env.mdBuffer
  bmResize :=
    let d := { d with md := mdSetSectorOffsets d.dev d.md }
    (d.bmResize (newDevSize d.node d.diskSize fl.forced) fl env).isOk
  diskConf := true

theorem Device.changeSize_node (d : Device) (prev : DrbdMd) (size : Nat) (fl : DdsFlags) (env : Env) :
    (d.changeSize prev size fl none env).2.node =
      if d.node.capacity ≠ size ∨ d.node.bmCapacity ≠ size then
        if (d.bmResize size fl env).isOk = true then
          { setMyCapacity { d.node with bmCapacity := roundCapacity size } size with
            md := { d.md with laSizeSect := size } }
        else
          { setMyCapacity d.node (d.node.bmCapacity / 2) with md := { d.md with laSizeSect := d.node.bmCapacity / 2 } }
      else d.node := by
  unfold Device.changeSize
  dsimp only
  by_cases hsame : d.capacity ≠ size ∨ d.bitmap.bmDevCapacity ≠ size
  · rw [if_pos hsame, if_pos (show d.node.capacity ≠ size ∨ d.node.bmCapacity ≠ size from hsame)]
    cases hres : d.bmResize size fl env with
    | error err => rfl
    | ok bitmap =>
        dsimp only
        have hset : ({ d with bitmap := bitmap }.setSize size).node =
            { setMyCapacity { d.node with bmCapacity := roundCapacity size } size with
              md := { d.md with laSizeSect := size } } := by
          unfold Device.node
          simp only [Device.setSize, drbdBmResize_bmDevCapacity hres]
          rfl
        rw [show (Except.ok bitmap : Except Bitmap.BmError Bitmap.Store).isOk = true from rfl, if_pos rfl, ← hset]
        split
        · exact writeAll_node _ _
        · rfl
  · rw [if_neg hsame, if_neg (show ¬ (d.node.capacity ≠ size ∨ d.node.bmCapacity ≠ size) from hsame)]
    dsimp only
    split
    · exact writeAll_node _ _
    · rfl

/-- Without a new striping, the size of the node is set as the receiver does it. -/
theorem drbdDetermineDevSize_node (d : Device) (fl : DdsFlags) (env : Env) :
    (drbdDetermineDevSize d fl none env).2.node = (determineDevSize (d.luck fl env) d.node fl.forced).2 := by
  have hsize : newDevSize (Device.node { d with md := newLayout d.dev d.md none }) d.diskSize fl.forced =
      newDevSize { d.node with md := mdSetSectorOffsets d.node.dev d.node.md } d.node.diskSize fl.forced := rfl
  unfold drbdDetermineDevSize determineDevSize
  dsimp only
  rw [hsize]
  generalize hnew : newDevSize { d.node with md := mdSetSectorOffsets d.node.dev d.node.md } d.node.diskSize
    fl.forced = size
  by_cases hbuf : env.mdBuffer = false
  · rw [if_pos hbuf, if_pos (show ¬ (d.luck fl env).mdBuffer = true from Bool.eq_false_iff.1 hbuf)]
  rw [if_neg hbuf, if_neg (show ¬ ¬ (d.luck fl env).mdBuffer = true from
    not_not_intro (Bool.eq_true_of_not_eq_false hbuf))]
  by_cases hspace : size < d.md.laSizeSect ∧ d.diskSize > size
  · rw [if_pos hspace, if_pos (show size < d.node.md.laSizeSect ∧ d.node.diskSize > size from hspace)]
    rfl
  have hok : (d.luck fl env).bmResize =
      (Device.bmResize { d with md := newLayout d.dev d.md none } size fl env).isOk := by
    rw [← hnew]
    rfl
  rw [if_neg hspace, if_neg (show ¬ (size < d.node.md.laSizeSect ∧ d.node.diskSize > size) from hspace),
    if_neg (fun hs => Bool.noConfusion hs.2.1), Device.changeSize_node, hok]
  by_cases hsame : d.node.capacity ≠ size ∨ d.node.bmCapacity ≠ size
  · rw [if_pos hsame, if_pos (by exact hsame)]
    split <;> rfl
  · rw [if_neg hsame, if_neg (by exact hsame)]
    rfl

end Drbd.Sizes
