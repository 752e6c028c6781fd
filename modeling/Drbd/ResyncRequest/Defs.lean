import Drbd.Bitmap.Defs

/-!
# The resync requests of drbd_worker.c

`make_resync_request` asks the peer for dirty blocks, `make_sync_request_send` and its sibling for snapshots
read them for the peer unasked. All merge adjacent dirty bits into one request; the first two lock the resync
extent of its first sector. The bitmap may change under them, so every round says which bitmap its search and
its tests have seen: a round tests no bit twice, and `tested` has for each bit what its test has seen.
-/

namespace Drbd.ResyncRequest

open Bitmap

def BM_BLOCK_SIZE : Nat := 2 ^ 12

def bmBitToSect (bit : Nat) : Nat := bit <<< 3

def bmSectToBit (sector : Nat) : Nat := sector >>> 3

def bmSectToExt (sector : Nat) : Nat := sector >>> 15

def BM_BLOCKS_PER_BM_EXT_MASK : Nat := 2 ^ 12 - 1

/-- A bitmap of `n` bits with the right weight, as `drbd_bm_resize` makes it and every change keeps it. -/
structure BitmapWith (n : Nat) extends DrbdBitmap where
  bits : bmBits = n
  counted : bmSet = (List.range bmBits).countP toDrbdBitmap.bit

/-- A request of `size` bytes from `sector` on. -/
structure Request where
  sector : Nat
  size : Nat
deriving DecidableEq, Repr

/-- All its sectors are in the extent of the first one, which is the one that was locked. -/
def Request.OneExtent (r : Request) : Prop :=
  ∀ s, r.sector ≤ s → s < r.sector + r.size >>> 9 → bmSectToExt s = bmSectToExt r.sector

/-- The very last sectors, in case the device is oddly sized. -/
def clip (capacity sector size : Nat) : Nat :=
  if capacity < sector + size >>> 9 then (capacity - sector) <<< 9 else size

inductive Stop
  | requeue
  | done
  | error
  | interrupted
deriving DecidableEq, Repr

structure Result where
  requests : List Request
  stop : Stop
  bmResyncFo : Nat

def Result.cons (r : Request) (res : Result) : Result := { res with requests := r :: res.requests }

/-! ## `make_resync_request` -/

/-- What came of sending the request, or of reading the block for its checksum. -/
inductive Sent
  | ok
  | again
  | failed
deriving DecidableEq, Repr

structure ResyncRound (n : Nat) where
  sndbufFilled : Bool
  found : BitmapWith n
  /-- `drbd_rs_should_slow_down`, or `drbd_try_rs_begin_io` of the first sector has failed -/
  busy : Bool
  tested : BitmapWith n
  sent : Sent

/-- The loop that tries to find some adjacent bits, at most `number - i` of them; gives the last bit
and the size. -/
def mergeResync (b : DrbdBitmap) (maxBioSize sector : Nat) : Nat → Nat → Nat → Nat → Nat × Nat
  | 0, bit, size, _ => (bit, size)
  | n + 1, bit, size, align =>
      if maxBioSize < size + BM_BLOCK_SIZE then (bit, size)
      else if sector &&& (1 <<< (align + 3) - 1) ≠ 0 then (bit, size)
      else if (bit + 1) &&& BM_BLOCKS_PER_BM_EXT_MASK = 0 then (bit, size)
      else if drbdBmTestBit b (bit + 1) ≠ .isSet then (bit, size)
      else
        let size := size + BM_BLOCK_SIZE
        mergeResync b maxBioSize sector n (bit + 1) size
          (if BM_BLOCK_SIZE <<< align ≤ size then align + 1 else align)

/-- The rounds of the loop; `again` is the jump to `next_sector`. -/
def makeResyncRequest {n : Nat} (capacity maxBioSize number : Nat) :
    Bool → List (ResyncRound n) → Nat → Nat → Result
  | _, [], bmResyncFo, _ => ⟨[], .interrupted, bmResyncFo⟩
  | again, r :: rounds, bmResyncFo, i =>
      if !again ∧ number ≤ i then
        ⟨[], if r.found.bmBits ≤ bmResyncFo then .done else .requeue, bmResyncFo⟩
      else if !again ∧ r.sndbufFilled then ⟨[], .requeue, bmResyncFo⟩
      else
        match bmFindNext r.found.toDrbdBitmap bmResyncFo false with
        | none => ⟨[], .done, r.found.bmBits⟩
        | some bit =>
            let sector := bmBitToSect bit
            if r.busy then ⟨[], .requeue, bit⟩
            else if drbdBmTestBit r.tested.toDrbdBitmap bit = .isClear then
              makeResyncRequest capacity maxBioSize number true rounds (bit + 1) i
            else
              let (last, size) := mergeResync r.tested.toDrbdBitmap maxBioSize sector (number - i) bit
                BM_BLOCK_SIZE 1
              let fo := if BM_BLOCK_SIZE < size then last + 1 else bit + 1
              let size := clip capacity sector size
              match r.sent with
              | .ok =>
                  (makeResyncRequest capacity maxBioSize number false rounds fo (i + (last - bit) + 1)).cons
                    ⟨sector, size⟩
              | .again => ⟨[], .requeue, bmSectToBit sector⟩
              | .failed => ⟨[], .error, fo⟩

/-- One call of `make_resync_request`. -/
structure ResyncTurn (n : Nat) where
  /-- nothing cancels or pauses the resync, and there is a disk -/
  goesOn : Bool
  /-- `drbd_rs_number_requests`, zero also for less than that -/
  number : Nat
  rounds : List (ResyncRound n)

def ResyncTurn.run {n : Nat} (capacity maxBioSize bmResyncFo : Nat) (t : ResyncTurn n) : Result :=
  if !t.goesOn ∨ t.number = 0 then ⟨[], .requeue, bmResyncFo⟩
  else makeResyncRequest capacity maxBioSize t.number false t.rounds bmResyncFo 0

/-- The calls of one pass over the bitmap. -/
def resyncPass {n : Nat} (capacity maxBioSize : Nat) : List (ResyncTurn n) → Nat → Result
  | [], bmResyncFo => ⟨[], .requeue, bmResyncFo⟩
  | t :: turns, bmResyncFo =>
      let res := t.run capacity maxBioSize bmResyncFo
      if res.stop = .requeue then
        let rest := resyncPass capacity maxBioSize turns res.bmResyncFo
        { rest with requests := res.requests ++ rest.requests }
      else res

/-! ## `make_sync_request_send` and `make_snapshot_sync_request_send` -/

structure SendRound (n : Nat) where
  /-- the disk, the snapshot flag, the connection, the disk states and the thread are as they should be,
  also whenever the wait for room in the send buffer looks at them -/
  goesOn : Bool
  found : BitmapWith n
  tested : BitmapWith n
  allocated : Bool
  /-- `drbd_rs_begin_io` of the first sector -/
  begun : Bool
  submitted : Bool

/-- The loop that merges adjacent bits. -/
def mergeSend (b : DrbdBitmap) (maxBioSize : Nat) : Nat → Nat → Nat → Nat × Nat
  | 0, bit, size => (bit, size)
  | fuel + 1, bit, size =>
      if maxBioSize < size + BM_BLOCK_SIZE then (bit, size)
      else if drbdBmTestBit b (bit + 1) ≠ .isSet then (bit, size)
      else mergeSend b maxBioSize fuel (bit + 1) (size + BM_BLOCK_SIZE)

/-- The rounds of the loop over `i < weight`; `locks` is whether it takes the resync extent. -/
def sendRounds {n : Nat} (capacity maxBioSize weight : Nat) (locks : Bool) :
    Bool → List (SendRound n) → Nat → Nat → Result
  | _, [], start, _ => ⟨[], .interrupted, start⟩
  | again, r :: rounds, start, i =>
      if !again ∧ weight ≤ i then ⟨[], .done, start⟩
      else if !again ∧ !r.goesOn then ⟨[], .error, start⟩
      else
        match bmFindNext r.found.toDrbdBitmap start false with
        | none => ⟨[], .done, start⟩
        | some bit =>
            let sector := bmBitToSect bit
            if drbdBmTestBit r.tested.toDrbdBitmap bit = .isClear then
              sendRounds capacity maxBioSize weight locks true rounds (bit + 1) i
            else
              let (last, size) := mergeSend r.tested.toDrbdBitmap maxBioSize r.tested.bmBits bit BM_BLOCK_SIZE
              let start := if BM_BLOCK_SIZE < size then last + 1 else bit + 1
              let size := clip capacity sector size
              if !r.allocated ∨ locks ∧ !r.begun then ⟨[], .error, start⟩
              else if !r.submitted then ⟨[⟨sector, size⟩], .error, start⟩
              else
                (sendRounds capacity maxBioSize weight locks false rounds start (i + (last - bit) + 1)).cons
                  ⟨sector, size⟩

/-- One of the two, with the bitmap it takes the weight of. -/
def requestSend {n : Nat} (capacity maxBioSize : Nat) (locks : Bool) (b : BitmapWith n)
    (rounds : List (SendRound n)) : Result :=
  if b.bmSet < 1 then ⟨[], .done, 0⟩ else sendRounds capacity maxBioSize b.bmSet locks false rounds 0 0

def makeSyncRequestSend {n : Nat} (capacity maxBioSize : Nat) (b : BitmapWith n) (rounds : List (SendRound n)) :
    Result :=
  requestSend capacity maxBioSize true b rounds

/-- The one for a snapshot takes no resync extent. -/
def makeSnapshotSyncRequestSend {n : Nat} (capacity maxBioSize : Nat) (b : BitmapWith n)
    (rounds : List (SendRound n)) : Result :=
  requestSend capacity maxBioSize false b rounds

end Drbd.ResyncRequest
