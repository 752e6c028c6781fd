import Drbd.Bitmap.Defs
import Drbd.Lib.System
import Drbd.Lru.Defs

/-!
# Protocol S: the sync_noblock thread

Under protocol S a write completes locally and only marks its blocks out of sync; the sync_noblock
thread later reads and sends them, and the peer's acks clear the bits. The cache `lru_noblock`, one
entry for each 4 MB extent, is to keep an ack from clearing a bit that was set again meanwhile.

Every lock section of the source is one event here, so two threads interleave between any two of them.
The fields `written`, `acked` and `copied` are not in the source: they count completed writes, and say
which of them a copy contains.
-/

namespace Drbd.Noblock

open Lru Bitmap

/-! ## Sectors, blocks and extents -/

/-- `BM_SECT_TO_BIT`. -/
def bmSectToBit (sector : Nat) : Nat := sector / 8

/-- The last sector of a request; an empty one is taken to be at its first. -/
def lastSector (sector size : Nat) : Nat :=
  if size = 0 then sector else sector + size / 512 - 1

/-- The loop `for (enr = first; enr <= last; enr++)` over 4 MB extents, in `unsigned`. -/
def extents (sector size : Nat) : List Nat :=
  let first := sector / 2 ^ 13 % 2 ^ 32
  let last := lastSector sector size / 2 ^ 13 % 2 ^ 32
  List.range' first (last + 1 - first)

/-- The 4 kB blocks a request touches. -/
def blocks (sector size : Nat) : List Nat :=
  if size = 0 then []
  else List.range' (bmSectToBit sector) (bmSectToBit (lastSector sector size) + 1 - bmSectToBit sector)

def DRBD_MAX_DISCARD_SIZE : Nat := 2 ^ 22

/-! ## Setting and clearing the bits of a request -/

def drbdSetOutOfSync (capacity : Nat) (b : DrbdBitmap) (sector size : Nat) : DrbdBitmap :=
  if size = 0 ∨ size % 512 ≠ 0 ∨ DRBD_MAX_DISCARD_SIZE < size then b
  else if capacity ≤ sector then b
  else
    let esector := min (sector + size / 512 - 1) (capacity - 1)
    (drbdBmSetBits b (bmSectToBit sector) (bmSectToBit esector)).1

-- only full blocks are cleared, and the last one of the device
def drbdSetInSync (capacity : Nat) (b : DrbdBitmap) (sector size : Nat) : DrbdBitmap :=
  if size = 0 ∨ size % 512 ≠ 0 ∨ DRBD_MAX_DISCARD_SIZE < size then b
  else if capacity ≤ sector then b
  else
    let esector := min (sector + size / 512 - 1) (capacity - 1)
    if esector < 7 then b
    else
      let ebnr := if esector = capacity - 1 then bmSectToBit (capacity - 1)
        else bmSectToBit (esector - 7)
      let sbnr := bmSectToBit (sector + 7)
      if ebnr < sbnr then b else (drbdBmClearBits b sbnr ebnr).1

/-! ## The extent cache -/

/-- One round of `drbd_noblock_begin_io`: a recycled element is committed at once. -/
def beginExtent (lc : LruCache) (enr : Nat) : Option (LruCache × Bool) :=
  match lcGet lc enr with
  | none => none
  | some (lc, none) => some (lc, false)
  | some (lc, some i) =>
      let e := lc.lcElement i
      if e.lcNumber ≠ enr then
        let lc := lc.setElement i { e with lcNumber := e.lcNewNumber }
        let lc := lc.moveInUse i
        some ({ lc with pendingChanges := lc.pendingChanges - 1 }, true)
      else some (lc, true)

/-- One round of `drbd_noblock_compleate_io`; `clean` is its `cflags`. The dropped element keeps its
place on the lru list and on its hash chain. -/
def compleateExtent (clean : Bool) (lc : LruCache) (enr : Nat) : Option (LruCache × Bool) :=
  match lcFind lc enr with
  | none => some (lc, false)
  | some i =>
      let e := lc.lcElement i
      if e.refcnt = 0 then some (lc, true)
      else if clean then
        match lcPut (lc.setElement i { e with refcnt := 1 }) i with
        | none => none
        | some (lc, _) =>
            let lc := lc.setElement i { lc.lcElement i with lcNumber := LC_FREE, lcNewNumber := LC_FREE }
            some ({ lc with starving := lc.starving + 1 }, true)
      else
        match lcPut lc i with
        | none => none
        | some (lc, cnt) =>
            if cnt = 0 then
              some (lc.setElement i
                { lc.lcElement i with lcNumber := LC_FREE, lcNewNumber := LC_FREE }, true)
            else some (lc, true)

/-- A loop over extents; the answer is true when it was for each of them. -/
def forExtents (f : LruCache → Nat → Option (LruCache × Bool)) :
    LruCache → List Nat → Option (LruCache × Bool)
  | lc, [] => some (lc, true)
  | lc, enr :: rest =>
      match f lc enr with
      | none => none
      | some (lc, ok) =>
          match forExtents f lc rest with
          | none => none
          | some (lc, oks) => some (lc, ok && oks)

def drbdNoblockBeginIo (lc : LruCache) (sector size : Nat) : Option (LruCache × Bool) :=
  forExtents beginExtent lc (extents sector size)

def drbdNoblockCompleateIo (lc : LruCache) (sector size : Nat) (clean : Bool) :
    Option (LruCache × Bool) :=
  forExtents (compleateExtent clean) lc (extents sector size)

/-! ## The threads -/

/-- A `drbd_peer_request` of the sender, from the submission of its read to its ack. -/
structure PeerReq where
  sector : Nat
  size : Nat
  copied : Nat → Option Nat

/-- A completed write between the two halves of `drbd_request_endio`. -/
structure Endio where
  sector : Nat
  size : Nat
deriving DecidableEq

/-- An ack between the two halves of `got_BlockAck`, with the answer of the first. -/
structure Ack where
  req : PeerReq
  found : Bool

/-- Where `make_sync_request_send` stands. -/
inductive SenderPc
  | idle
  | find
  | test (bit : Nat)
  | grow (sector size bit : Nat)
  | beginIo (sector size : Nat)
  | submit (sector size : Nat)
deriving DecidableEq

/-- The local variables of `make_sync_request_send`. -/
structure Sender where
  pc : SenderPc
  i : Nat
  weight : Nat
  begin : Nat

/-- The capacity in sectors. A bitmap page index has 24 bits (`bm_store_page_idx`). -/
structure Geometry where
  capacity : Nat
  maxBioSize : Nat
  capacity_le : capacity ≤ 2 ^ 42
  maxBioSize_le : maxBioSize ≤ 2 ^ 20

structure State where
  lruNoblock : LruCache
  bitmap : DrbdBitmap
  endios : List Endio
  sender : Sender
  reqs : List PeerReq
  ack : Option Ack
  written : Nat → Nat
  acked : Nat → Nat

inductive Event
  | endio (sector size : Nat)
  | endioSetOutOfSync (k : Nat)
  | syncStart
  | syncStep
  | syncAbort
  | submitFailed
  | readBlock (k block : Nat)
  | replyFailed (k : Nat)
  | replyNotSent (k : Nat)
  | ackArrives (k : Nat)
  | ackSetInSync
deriving DecidableEq

/-- What the block layer hands in. -/
def WriteOk (g : Geometry) (sector size : Nat) : Prop :=
  size % 512 = 0 ∧ size ≤ DRBD_MAX_DISCARD_SIZE ∧ sector + size / 512 ≤ g.capacity

instance (g : Geometry) (sector size : Nat) : Decidable (WriteOk g sector size) :=
  inferInstanceAs (Decidable (_ ∧ _ ∧ _))

/-- The first half of `drbd_request_endio`: the write is on disk, its extents are dropped. -/
def endio (g : Geometry) (s : State) (sector size : Nat) : Option State :=
  if WriteOk g sector size then
    (drbdNoblockCompleateIo s.lruNoblock sector size true).map fun (lc, _) =>
      { s with
        lruNoblock := lc
        endios := s.endios ++ [⟨sector, size⟩]
        written := fun b => if b ∈ blocks sector size then s.written b + 1 else s.written b }
  else none

def endioSetOutOfSync (g : Geometry) (s : State) (k : Nat) : Option State :=
  match s.endios[k]? with
  | none => none
  | some w =>
      some { s with
        endios := s.endios.eraseIdx k
        bitmap := drbdSetOutOfSync g.capacity s.bitmap w.sector w.size }

/-- One lock section of `make_sync_request_send`. -/
def syncStep (g : Geometry) (s : State) : Option State :=
  let v := s.sender
  match v.pc with
  | .idle => none
  | .find =>
      match bmFindNext s.bitmap v.begin false with
      | none => some { s with sender := { v with pc := .idle } }
      | some bit => some { s with sender := { v with pc := .test bit, begin := bit + 1 } }
  | .test bit =>
      if drbdBmTestBit s.bitmap bit = .isClear then some { s with sender := { v with pc := .find } }
      else some { s with sender := { v with pc := .grow (bit * 8) 4096 bit } }
  | .grow sector size bit =>
      if size + 4096 ≤ g.maxBioSize ∧ drbdBmTestBit s.bitmap (bit + 1) = .isSet then
        some { s with sender := { v with pc := .grow sector (size + 4096) (bit + 1), i := v.i + 1 } }
      else
        let begin := if 4096 < size then bit + 1 else v.begin
        let size := if g.capacity < sector + size / 512 then (g.capacity - sector) * 512 else size
        some { s with sender := { v with pc := .beginIo sector size, begin := begin } }
  | .beginIo sector size =>
      -- a failed `lc_get` is only logged
      (drbdNoblockBeginIo s.lruNoblock sector size).map fun (lc, _) =>
        { s with lruNoblock := lc, sender := { v with pc := .submit sector size } }
  | .submit sector size =>
      let pc := if v.i + 1 < v.weight then .find else .idle
      some { s with
        sender := { v with pc := pc, i := v.i + 1 }
        reqs := s.reqs ++ [⟨sector, size, fun _ => none⟩] }

/-- A request that ends without an ack gives its extents back. -/
def replyFailed (s : State) (k : Nat) : Option State :=
  match s.reqs[k]? with
  | none => none
  | some r =>
      (drbdNoblockCompleateIo s.lruNoblock r.sector r.size false).map fun (lc, _) =>
        { s with lruNoblock := lc, reqs := s.reqs.eraseIdx k }

/-- The first half of `got_BlockAck`; only a request that was read as a whole has been sent. -/
def ackArrives (s : State) (k : Nat) : Option State :=
  match s.ack, s.reqs[k]? with
  | none, some r =>
      if ∀ b ∈ blocks r.sector r.size, (r.copied b).isSome then
        (drbdNoblockCompleateIo s.lruNoblock r.sector r.size false).map fun (lc, found) =>
          { s with
            lruNoblock := lc
            reqs := s.reqs.eraseIdx k
            ack := some ⟨r, found⟩
            acked := fun b =>
              if b ∈ blocks r.sector r.size then max (s.acked b) ((r.copied b).getD 0) else s.acked b }
      else none
  | _, _ => none

def ackSetInSync (g : Geometry) (s : State) : Option State :=
  match s.ack with
  | none => none
  | some a =>
      some { s with
        ack := none
        bitmap := if a.found then drbdSetInSync g.capacity s.bitmap a.req.sector a.req.size
          else s.bitmap }

def step (g : Geometry) (s : State) : Event → Option State
  | .endio sector size => endio g s sector size
  | .endioSetOutOfSync k => endioSetOutOfSync g s k
  | .syncStart =>
      if s.sender.pc = .idle ∧ 0 < s.bitmap.bmSet then
        some { s with sender := ⟨.find, 0, s.bitmap.bmSet, 0⟩ }
      else none
  | .syncStep => syncStep g s
  | .syncAbort =>
      -- the connection, the disk or an allocation failed before `begin_io`
      match s.sender.pc with
      | .submit _ _ => none
      | _ => some { s with sender := { s.sender with pc := .idle } }
  | .submitFailed =>
      match s.sender.pc with
      | .submit sector size =>
          (drbdNoblockCompleateIo s.lruNoblock sector size false).map fun (lc, _) =>
            { s with lruNoblock := lc, sender := { s.sender with pc := .idle } }
      | _ => none
  | .readBlock k block =>
      match s.reqs[k]? with
      | none => none
      | some r =>
          if block ∈ blocks r.sector r.size ∧ r.copied block = none then
            some { s with
              reqs := s.reqs.set k
                { r with copied := Function.update r.copied block (some (s.written block)) } }
          else none
  | .replyFailed k => replyFailed s k
  | .replyNotSent k => if k < s.reqs.length then some { s with reqs := s.reqs.eraseIdx k } else none
  | .ackArrives k => ackArrives s k
  | .ackSetInSync => ackSetInSync g s

end Drbd.Noblock
