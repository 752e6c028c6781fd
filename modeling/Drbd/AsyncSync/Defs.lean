import Drbd.Lib.System
import Drbd.Lru.Ops
import Drbd.Noblock.Defs

/-!
# What an asynchronous sync takes and gives back

`make_sync_request_send` takes a reference to the disk, one to a resync extent, one to each extent of
`lru_noblock` and a count in `unacked_cnt`; the end of the read, `w_e_end_rsdata_req` and the peer's ack
give them back, on three threads. Whatever a function takes or gives back is a step of its own.
-/

namespace Drbd.AsyncSync

open Lru Noblock Lib

/-- The sectors of a request; no bitmap is for a device of more than `2 ^ 42` sectors. -/
structure Range where
  sector : Nat
  size : Nat
  nonempty : 512 ≤ size
  inside : sector + size / 512 ≤ 2 ^ 42

theorem Range.eq_iff {r r' : Range} : r = r' ↔ r.sector = r'.sector ∧ r.size = r'.size := by
  cases r
  cases r'
  exact Range.mk.injEq .. ▸ Iff.rfl

instance : DecidableEq Range := fun _ _ => decidable_of_iff' _ Range.eq_iff

/-- `BM_SECT_TO_EXT`. -/
def bmSectToExt (sector : Nat) : Nat := sector >>> 15

structure Device where
  localCnt : Nat
  unackedCnt : Nat
  resync : LruCache
  lruNoblock : LruCache

namespace Device

def getLdev (d : Device) : Device := { d with localCnt := d.localCnt + 1 }

def putLdev (d : Device) : Device := { d with localCnt := d.localCnt - 1 }

def incUnacked (d : Device) : Device := { d with unackedCnt := d.unackedCnt + 1 }

def decUnacked (d : Device) : Device := { d with unackedCnt := d.unackedCnt - 1 }

end Device

/-! ## The extents -/

/-- `_bme_get` when it gives an extent. -/
def bmeGet (resync : LruCache) (enr : Nat) : Option (LruCache × Nat) :=
  match lcGet resync enr with
  | some (lc, some i) =>
      if (lc.lcElement i).lcNumber ≠ enr then (lcCommitted lc).map fun lc => (lc, i) else some (lc, i)
  | _ => none

/-- `_bme_get` when it does not and the sender has to wait. -/
def bmeWait (resync : LruCache) (enr : Nat) : Option LruCache :=
  match lcGet resync enr with
  | some (lc, none) => some lc
  | _ => none

def drbdRsCompleteIo (resync : LruCache) (sector : Nat) : Option LruCache :=
  match lcFind resync (bmSectToExt sector) with
  | none => some resync
  | some i => if (resync.lcElement i).refcnt = 0 then some resync else (lcPut resync i).map (·.1)

namespace Device

def noblockBeginIo (d : Device) (r : Range) : Option Device :=
  (drbdNoblockBeginIo d.lruNoblock r.sector r.size).map fun lc => { d with lruNoblock := lc.1 }

def noblockCompleateIo (d : Device) (r : Range) : Option Device :=
  (drbdNoblockCompleateIo d.lruNoblock r.sector r.size false).map fun lc => { d with lruNoblock := lc.1 }

def rsCompleteIo (d : Device) (r : Range) : Option Device :=
  (drbdRsCompleteIo d.resync r.sector).map fun lc => { d with resync := lc }

end Device

/-! ## After the read -/

inductive NetConf
  | none
  | protocolS
  | other
deriving DecidableEq

/-- What `w_e_end_rsdata_req` meets. -/
structure WorkInput where
  cancel : Bool
  /-- `get_ldev_if_state(device, D_FAILED)` -/
  ldev : Bool
  /-- a snapshot sync is running -/
  snapshot : Bool
  /-- the connection is `C_AHEAD` -/
  ahead : Bool
  /-- the peer's disk is at least `D_INCONSISTENT` -/
  pdsk : Bool
  sendFails : Bool
  netConf : NetConf
  /-- at the second look -/
  netConfAfter : NetConf
deriving DecidableEq

/-- Gives the device, `err` and whether the data are on their way to the peer. -/
def rsdataReply (d : Device) (r : Range) (wasError : Bool) (w : WorkInput) : Option (Device × Bool × Bool) :=
  if w.ahead then some (d, w.sendFails, false)
  else if !wasError then
    if w.pdsk then some (d, w.sendFails, !w.sendFails) else some (d, false, false)
  else if w.netConf = .other then some (d, w.sendFails, false)
  else (d.noblockCompleateIo r).map fun d => (d, false, false)

/-- Gives also whether an ack is to come. -/
def wEEndRsdataReq (d : Device) (r : Range) (wasError : Bool) (w : WorkInput) : Option (Device × Bool) :=
  if w.cancel then some (d.decUnacked, false)
  else
    let extent := if !w.ldev then some d
      else if w.snapshot then some d.getLdev.putLdev
      else (d.getLdev.rsCompleteIo r).map Device.putLdev
    extent.bind fun d => (rsdataReply d r wasError w).bind fun (d, err, sent) =>
      let d := d.decUnacked
      if err ∧ w.netConfAfter = .protocolS then (d.noblockCompleateIo r).map fun d => (d, sent)
      else some (d, sent)

/-- What `got_BlockAck` meets. -/
structure AckInput where
  ldev : Bool
  snapshot : Bool
  netConf : NetConf
deriving DecidableEq

/-- `got_BlockAck` of a block that was sent by the thread. Setting it in sync gets and puts its resync extent in one
locked section, which leaves no reference. -/
def gotBlockAck (d : Device) (r : Range) (a : AckInput) : Option Device :=
  if !a.ldev then some d
  else if !a.snapshot ∧ a.netConf = .protocolS then (d.getLdev.noblockCompleateIo r).map Device.putLdev
  else some d.getLdev.putLdev

/-- `drbd_rs_failed_io` counts the bits of the failed range, and gets and puts its resync extent in one locked
section; no reference is left or given back. -/
def gotNegAck (d : Device) (_ : Range) : Device := d

/-! ## The threads -/

/-- Where `make_sync_request_send` stands. -/
inductive Sender
  | idle
  | scanning
  | allocated (r : Range)
  /-- it has extent `i` and waits for the activity log to leave it -/
  | locking (r : Range) (i : Nat)
  | begun (r : Range)
  | counted (r : Range)
  | filled (r : Range)
deriving DecidableEq

inductive Phase
  | reading
  | read (wasError : Bool)
  | sent
deriving DecidableEq

/-- A submitted request. -/
structure PeerReq where
  range : Range
  phase : Phase
deriving DecidableEq

structure State where
  device : Device
  sender : Sender
  flights : List PeerReq

inductive Event
  | getLdev (ok : Bool)
  /-- something has changed, or there are no more dirty bits -/
  | leave
  | alloc (r : Range) (ok : Bool)
  | rsWait
  | rsGet
  /-- the activity log is not in the way -/
  | rsLocked
  | rsStepAside
  | rsInterrupted
  | incUnacked
  | noblockBeginIo
  | submit (ok : Bool)
  | endio (q : PeerReq) (wasError : Bool)
  | work (q : PeerReq) (w : WorkInput)
  | blockAck (q : PeerReq) (a : AckInput)
  | negAck (q : PeerReq)

namespace State

def proceed (s : State) (d : Device) (sender : Sender) : State := { s with device := d, sender := sender }

/-- A request goes on, or is freed. -/
def replace (s : State) (q : PeerReq) (d : Device) (q' : Option PeerReq) : State :=
  { s with device := d, flights := q'.toList ++ s.flights.erase q }

end State

def senderStep (s : State) : Event → Option State
  | .getLdev ok =>
      if s.sender ≠ .idle then none
      else if ok then some (s.proceed s.device.getLdev .scanning) else some s
  | .leave => if s.sender = .scanning then some (s.proceed s.device.putLdev .idle) else none
  | .alloc r ok =>
      if s.sender ≠ .scanning then none
      else if ok then some (s.proceed s.device (.allocated r)) else some (s.proceed s.device.putLdev .idle)
  | .rsWait =>
      match s.sender with
      | .allocated r => (bmeWait s.device.resync (bmSectToExt r.sector)).map fun lc =>
          s.proceed { s.device with resync := lc } (.allocated r)
      | _ => none
  | .rsGet =>
      match s.sender with
      | .allocated r => (bmeGet s.device.resync (bmSectToExt r.sector)).map fun (lc, i) =>
          s.proceed { s.device with resync := lc } (.locking r i)
      | _ => none
  | .rsLocked =>
      match s.sender with
      | .locking r _ => some (s.proceed s.device (.begun r))
      | _ => none
  | .rsStepAside =>
      match s.sender with
      | .locking r i => (lcPut s.device.resync i).map fun lc =>
          s.proceed { s.device with resync := lc.1 } (.allocated r)
      | _ => none
  | .rsInterrupted =>
      match s.sender with
      | .allocated _ => some (s.proceed s.device.putLdev .idle)
      | .locking _ i => (lcPut s.device.resync i).map fun lc =>
          s.proceed { s.device with resync := lc.1 }.putLdev .idle
      | _ => none
  | .incUnacked =>
      match s.sender with
      | .begun r => some (s.proceed s.device.incUnacked (.counted r))
      | _ => none
  | .noblockBeginIo =>
      match s.sender with
      | .counted r => (s.device.noblockBeginIo r).map fun d => s.proceed d (.filled r)
      | _ => none
  | .submit ok =>
      match s.sender with
      | .filled r =>
          if ok then some { s with sender := .idle, flights := ⟨r, .reading⟩ :: s.flights }
          else (s.device.noblockCompleateIo r).map fun d => s.proceed d.putLdev .idle
      | _ => none
  | _ => none

def flightStep (s : State) : Event → Option State
  | .endio q wasError =>
      if q ∈ s.flights ∧ q.phase = .reading then
        some (s.replace q s.device.putLdev (some ⟨q.range, .read wasError⟩))
      else none
  | .work q w =>
      if q ∉ s.flights then none
      else
        match q.phase with
        | .read wasError => (wEEndRsdataReq s.device q.range wasError w).map fun (d, sent) =>
            s.replace q d (if sent then some ⟨q.range, .sent⟩ else none)
        | _ => none
  | .blockAck q a =>
      if q ∈ s.flights ∧ q.phase = .sent then
        (gotBlockAck s.device q.range a).map fun d => s.replace q d none
      else none
  | .negAck q =>
      if q ∈ s.flights ∧ q.phase = .sent then some (s.replace q (gotNegAck s.device q.range) none) else none
  | _ => none

/-- `make_sync_request_send`, again and again, and whatever happens to the requests it has submitted. -/
def step (s : State) : Event → Option State
  | .endio q wasError => flightStep s (.endio q wasError)
  | .work q w => flightStep s (.work q w)
  | .blockAck q a => flightStep s (.blockAck q a)
  | .negAck q => flightStep s (.negAck q)
  | e => senderStep s e

end Drbd.AsyncSync
