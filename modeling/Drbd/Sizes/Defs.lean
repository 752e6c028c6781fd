import Drbd.Layout.Defs
import Drbd.State.Defs

/-!
# Agreeing on the size of the device

Each node tells its peer the capacity of its lower level device and the size its user asked for, and
computes the size of the device from both.
-/

namespace Drbd.Sizes

open Lib State

/-- A node with an attached disk. The capacity of the device is a multiple of 16 MB: nothing but
`drbd_set_my_capacity()` sets it. -/
structure Node where
  dev : Layout.Devices
  md : Layout.DrbdMd
  /-- `disk_conf->disk_size` -/
  diskSize : Nat
  /-- `drbd_get_capacity(device->this_bdev)` -/
  capacity : Nat
  /-- `drbd_bm_capacity()` -/
  bmCapacity : Nat
  /-- the peer's disk size -/
  pSize : Nat
  conn : Conn
  disk : Disk
  capacity_aligned : capacity % 2 ^ 15 = 0

/-- `struct p_sizes` without the limits on requests -/
structure PSizes where
  dSize : Nat
  uSize : Nat
  ddsfForced : Bool
deriving Repr, DecidableEq

/-- `drbd_send_sizes()` -/
def sendSizes (n : Node) (ddsfForced : Bool) : PSizes :=
  if .negotiating ≤ n.disk then ⟨Layout.getMaxCapacity n.dev n.md, n.diskSize, ddsfForced⟩
  else ⟨0, 0, ddsfForced⟩

def minNotZero (x y : Nat) : Nat := if x = 0 then y else if y = 0 then x else min x y

/-- `drbd_new_dev_size()` -/
def newDevSize (n : Node) (uSize : Nat) (assumePeerHasSpace : Bool) : Nat :=
  let laSizeSect := n.md.laSizeSect
  let mSize := Layout.getMaxCapacity n.dev n.md
  let pSize := if n.conn < .connected ∧ assumePeerHasSpace then mSize else n.pSize
  let size :=
    if pSize ≠ 0 ∧ mSize ≠ 0 then min pSize mSize
    else if laSizeSect ≠ 0 then
      let size := laSizeSect
      let size := if mSize ≠ 0 ∧ mSize < size then mSize else size
      if pSize ≠ 0 ∧ pSize < size then pSize else size
    else if pSize ≠ 0 then pSize
    else mSize
  -- a requested size that is too big is only reported
  if uSize ≠ 0 ∧ ¬ uSize > size then uSize else size

/-- What `drbd_set_my_capacity()` makes of a size -/
def roundCapacity (size : Nat) : Nat := size - size % 2 ^ 15

theorem roundCapacity_aligned (size : Nat) : roundCapacity size % 2 ^ 15 = 0 := by
  unfold roundCapacity
  omega

def setMyCapacity (n : Node) (size : Nat) : Node :=
  { n with capacity := roundCapacity size, capacity_aligned := roundCapacity_aligned size }

inductive DetermineDevSize
  | errorSpaceMd
  | error
  | unchanged
  | shrunk
  | grew
  | grewFromZero
deriving Repr, DecidableEq

/-- What can go wrong around it: the meta-data buffer, the new bitmap and a new disk configuration. -/
structure Luck where
  mdBuffer : Bool
  bmResize : Bool
  diskConf : Bool
deriving Repr, DecidableEq

/-- `drbd_determine_dev_size()` as the receiver calls it, without a change of the activity log -/
def determineDevSize (luck : Luck) (n : Node) (ddsfForced : Bool) : DetermineDevSize × Node :=
  if ¬ luck.mdBuffer then (.error, n)
  else
    let laSizeSect := n.md.laSizeSect
    let n := { n with md := Layout.mdSetSectorOffsets n.dev n.md }
    let size := newDevSize n n.diskSize ddsfForced
    if size < laSizeSect ∧ n.diskSize > size then (.errorSpaceMd, n)
    else if n.capacity ≠ size ∨ n.bmCapacity ≠ size then
      if luck.bmResize then
        let n := { n with bmCapacity := roundCapacity size }
        let n := { setMyCapacity n size with md := { n.md with laSizeSect := size } }
        (if size > laSizeSect then if laSizeSect ≠ 0 then .grew else .grewFromZero
          else if size < laSizeSect then .shrunk else .unchanged, n)
      else
        let size := n.bmCapacity / 2
        (.error, { setMyCapacity n size with md := { n.md with laSizeSect := size } })
    else
      (if size > laSizeSect then if laSizeSect ≠ 0 then .grew else .grewFromZero
        else if size < laSizeSect then .shrunk else .unchanged, n)

/-- `get_ldev()` -/
def Node.HasDisk (n : Node) : Prop := .inconsistent ≤ n.disk

instance (n : Node) : Decidable n.HasDisk := inferInstanceAs (Decidable (_ ≤ _))

/-- The part of `receive_sizes()` before the size is determined: the peer's size may be refused, the
user's request is taken over. -/
def takeSizes (luck : Luck) (n : Node) (p : PSizes) : Option Node :=
  if n.HasDisk then
    -- if this is the first connect, or an otherwise expected param exchange, choose the minimum
    let pUsize := if n.conn = .wfReportParams then minNotZero n.diskSize p.uSize else p.uSize
    -- never shrink a device with usable data during connect
    if newDevSize n pUsize false < n.capacity ∧ .outdated ≤ n.disk ∧ n.conn < .connected then none
    else if n.diskSize ≠ pUsize then
      if luck.diskConf then some { n with diskSize := pUsize } else none
    else some n
  else some n

/-- The part where the size is set; of the error codes only DS_ERROR is looked at. -/
def applySize (luck : Luck) (n : Node) (p : PSizes) : Option Node :=
  if n.HasDisk then
    if (determineDevSize luck n p.ddsfForced).1 = .error then none
    else some (determineDevSize luck n p.ddsfForced).2
  else some (setMyCapacity n p.dSize)

/-- `receive_sizes()`; no result: an error is returned. What it answers once connected is left out. -/
def receiveSizes (luck : Luck) (n : Node) (p : PSizes) : Option Node :=
  (takeSizes luck { n with pSize := p.dSize } p).bind fun n => applySize luck n p

/-! ## Two nodes that connect -/

/-- Both handle the other's initial P_SIZES without an error. -/
def exchange (luckA luckB : Luck) (a b : Node) : Option (Node × Node) := do
  let a' ← receiveSizes luckA a (sendSizes b false)
  let b' ← receiveSizes luckB b (sendSizes a false)
  some (a', b')

/-- Two nodes with attached disks that exchange their parameters. -/
structure Connecting (a b : Node) : Prop where
  diskA : a.HasDisk
  diskB : b.HasDisk
  connA : a.conn = .wfReportParams
  connB : b.conn = .wfReportParams

/-- The capacity both end with, below what either can hold, and no usable data cut off. -/
structure Agreed (a b a' b' : Node) : Prop where
  capacity : a'.capacity = b'.capacity
  leA : a'.capacity ≤ Layout.getMaxCapacity a'.dev a'.md
  leB : a'.capacity ≤ Layout.getMaxCapacity b'.dev b'.md
  keptA : .outdated ≤ a.disk → a.capacity ≤ a'.capacity
  keptB : .outdated ≤ b.disk → b.capacity ≤ b'.capacity

end Drbd.Sizes
