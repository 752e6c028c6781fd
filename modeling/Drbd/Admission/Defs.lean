import Drbd.Lru.Ops
import Drbd.Noblock.Defs

/-!
# Admission to the activity log without blocking

`drbd_al_begin_io_nonblock` looks at the counters of the activity log and at the resync extents in
its way, and then takes one reference for each extent. It runs under `al_lock`, so it is one step.
-/

namespace Drbd.Admission

open Lru

/-- `AL_EXT_PER_BM_SECT`. -/
def AL_EXT_PER_BM_SECT : Nat := 4

/-- The resync cache with the flags `BME_NO_WRITES` and `BME_PRIORITY` of its extents, by element. -/
structure Resync where
  lc : LruCache
  noWrites : Nat → Bool
  priority : Nat → Bool

inductive Errno
  | ewouldblock
  | ebusy
deriving DecidableEq, Repr

/-- Is resync active in this area? The first extent that says so is given priority. -/
def checkResync (rs : Resync) : List Nat → Resync × Option Errno
  | [] => (rs, none)
  | enr :: rest =>
      match lcFind rs.lc (enr / AL_EXT_PER_BM_SECT) with
      | none => checkResync rs rest
      | some i =>
          if rs.noWrites i then
            if rs.priority i then (rs, some .ewouldblock)
            else ({ rs with priority := Function.update rs.priority i true }, some .ebusy)
          else checkResync rs rest

/-- Checkout the refcounts; a failure is only logged. -/
def checkout (al : LruCache) : List Nat → Option LruCache
  | [] => some al
  | enr :: rest =>
      match lcGetCumulative al enr with
      | none => none
      | some (al, _) => checkout al rest

/-- The first and the last extent of an interval. -/
def firstExtent (sector : Nat) : Nat :=
  sector / 2 ^ 13 % 2 ^ 32

def lastExtent (sector size : Nat) : Nat :=
  Noblock.lastSector sector size / 2 ^ 13 % 2 ^ 32

def availableUpdateSlots (al : LruCache) : Nat :=
  min (al.nrElements - al.used) (al.maxPendingChanges - al.pendingChanges)

/-- `drbd_al_begin_io_nonblock`; no result is a fired `BUG_ON`. -/
def drbdAlBeginIoNonblock (al : LruCache) (rs : Resync) (sector size : Nat) :
    Option (LruCache × Resync × Option Errno) :=
  let first := firstExtent sector
  let last := lastExtent sector size
  let nrAlExtents := (1 + last + 2 ^ 32 - first) % 2 ^ 32
  if availableUpdateSlots al < nrAlExtents then some (al, rs, some .ewouldblock)
  else match checkResync rs (Noblock.extents sector size) with
    | (rs, some err) => some (al, rs, some err)
    | (rs, none) => (checkout al (Noblock.extents sector size)).map fun al => (al, rs, none)

/-- The references to an extent. -/
def refcntOf (lc : LruCache) (enr : Nat) : Nat :=
  match lcFindAny lc enr true with
  | none => 0
  | some i => (lc.lcElement i).refcnt

/-- Admitted with one reference more for each extent, or refused with the activity log as it was. -/
def AllOrNothing (al : LruCache) (xs : List Nat) : LruCache × Option Errno → Prop
  | (al', none) => ∀ x ∈ xs, refcntOf al' x = refcntOf al x + 1
  | (al', some _) => al' = al

end Drbd.Admission
