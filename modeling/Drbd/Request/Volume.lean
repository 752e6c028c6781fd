import Drbd.Request.Lemmas.Events
import Drbd.Noblock.Lemmas.Sync

/-!
# A write request and the bitmap

The request with its sector range, on a device with a bitmap. What the request does to the bitmap is read
off its log; other threads may change the bitmap between any two steps.
-/

namespace Drbd.Request

open State Bitmap Noblock

structure Volume where
  req : DrbdRequest
  sector : Nat
  size : Nat
  capacity : Nat
  bitmap : DrbdBitmap
  disk : Disk

/-- `drbd_set_out_of_sync` and `drbd_set_in_sync` do nothing without a disk that is at least
`D_INCONSISTENT`. -/
def Volume.effect (disk : Disk) (v : Volume) : Effect → Volume
  | .setOutOfSync =>
      if .inconsistent ≤ disk then
        { v with bitmap := drbdSetOutOfSync v.capacity v.bitmap v.sector v.size }
      else v
  | .setInSync =>
      if .inconsistent ≤ disk then
        { v with bitmap := drbdSetInSync v.capacity v.bitmap v.sector v.size }
      else v
  | _ => v

/-- What happens on the device: a step of the request, with whether the sync_noblock thread runs; the mark
`drbd_process_write_request` makes while ahead of the peer; and changes of the bitmap by other threads. -/
inductive VolumeAct
  | request (env : Env) (running : Bool) (act : Act)
  | markAhead (env : Env)
  | others (bitmap : DrbdBitmap)

/-- `drbd_request_endio` marks a write that protocol S did not send. -/
def Volume.endioMark (v : Volume) (env : Env) (running : Bool) (act : Act) : Volume :=
  if act = .event .completedOk ∧ v.req.rw = .write ∧ env.wireProtocol = .s ∧ running then
    v.effect env.disk .setOutOfSync
  else v

/-- One step; `disk` is what the last step of the request found. Nothing is followed past the end of the
request. -/
def Volume.step (v : Volume) : VolumeAct → Option Volume
  | .request env running act =>
      let v := v.endioMark env running act
      (Request.step v.req (env, act)).map fun req =>
        { (req.log.drop v.req.log.length).foldl (Volume.effect env.disk) v with req := req, disk := env.disk }
  | .markAhead env =>
      if v.req.submitter ∧ !v.req.freed then some (v.effect env.disk .setOutOfSync) else none
  | .others bitmap =>
      if bitmap.bmBits = v.bitmap.bmBits ∧ !v.req.freed then some { v with bitmap := bitmap } else none

end Drbd.Request
