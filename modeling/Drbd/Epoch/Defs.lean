import Drbd.Lib.System
import Mathlib.Data.List.Basic

/-!
# Epochs of the transfer log

A write belongs to the epoch that is current when it is submitted. The worker sends the writes in order
and puts a P_BARRIER between two epochs; the peer counts the writes between the barriers, and its
P_BARRIER_ACK must match what `tl_release` counts in the transfer log.
-/

namespace Drbd.Epoch

/-- What is to be sent of a request: nothing, its data, its blocks only, or a read request. -/
inductive Kind
  | localOnly
  | data
  | outOfSync
  | read
deriving DecidableEq, Repr

/-- Where the network part of a request is. -/
inductive Status
  | queued
  | sent
  | done
deriving DecidableEq, Repr

/-- A request in the transfer log. -/
structure TlReq where
  epoch : Nat
  write : Bool
  kind : Kind
  status : Status
deriving DecidableEq, Repr

/-- `s & RQ_NET_MASK`. -/
def TlReq.netMask (r : TlReq) : Bool :=
  r.kind ≠ .localOnly

/-- `s & RQ_NET_DONE`. -/
def TlReq.netDone (r : TlReq) : Bool :=
  r.netMask && r.status = .done

/-- The packets that concern epochs. -/
inductive Packet
  | data (epoch : Nat)
  | barrier (nr : Nat)
deriving DecidableEq, Repr

/-- `connection->send`. -/
structure Send where
  seenAnyWriteYet : Bool
  currentEpochNr : Nat
  currentEpochWrites : Nat
deriving DecidableEq, Repr

/-- A connection seen from the primary: the transfer log, the sender, the packets under way, the size of the
peer's current epoch, the barrier acks under way and whether one of them broke the connection. The field
`wire`, all that was ever sent, is not in the source. -/
structure Connection where
  currentTleNr : Nat
  currentTleWrites : Nat
  transferLog : List TlReq
  send : Send
  channel : List Packet
  epochSize : Nat
  acks : List (Nat × Nat)
  protocolError : Bool
  wire : List Packet
deriving DecidableEq, Repr

/-! ## The submitter -/

def startNewTlEpoch (c : Connection) : Connection :=
  if c.currentTleWrites = 0 then c
  else { c with currentTleWrites := 0, currentTleNr := c.currentTleNr + 1 }

/-- `drbd_process_write_request`; `noblock` says that protocol S runs its sync_noblock thread, `marked` that
`drbd_set_out_of_sync` changed a bit. -/
def drbdProcessWriteRequest (remote sendOos noblock marked : Bool) : Kind :=
  if !remote && !sendOos then .localOnly
  else if noblock then .localOnly
  else if remote then .data
  else if marked then .outOfSync
  else .localOnly

/-- `QUEUE_FOR_NET_WRITE` closes the epoch in case it outgrew the limit. -/
def queueForNetWrite (maxEpochSize : Nat) (c : Connection) : Connection :=
  if maxEpochSize ≤ c.currentTleWrites then startNewTlEpoch c else c

/-- The part of `drbd_send_and_submit` for a write that is not empty. -/
def submitWrite (maxEpochSize : Nat) (c : Connection) (kind : Kind) : Connection :=
  let c := { c with
    currentTleWrites := c.currentTleWrites + 1
    transferLog := c.transferLog ++ [⟨c.currentTleNr, true, kind, .queued⟩] }
  if kind = .data then queueForNetWrite maxEpochSize c else c

/-- The same for a read. -/
def submitRead (c : Connection) (remote : Bool) : Connection :=
  { c with
    transferLog := c.transferLog ++
      [⟨c.currentTleNr, false, if remote then .read else .localOnly, .queued⟩] }

/-! ## The worker -/

def Connection.put (c : Connection) (p : Packet) : Connection :=
  { c with channel := c.channel ++ [p], wire := c.wire ++ [p] }

def drbdSendBarrier (c : Connection) : Connection :=
  { c with send := { c.send with currentEpochWrites := 0 } }.put (.barrier c.send.currentEpochNr)

def reInitIfFirstWrite (c : Connection) (epoch : Nat) : Connection :=
  if c.send.seenAnyWriteYet then c else { c with send := ⟨true, epoch, 0⟩ }

def maybeSendBarrier (c : Connection) (epoch : Nat) : Connection :=
  if !c.send.seenAnyWriteYet then c
  else if c.send.currentEpochNr = epoch then c
  else
    let c := if c.send.currentEpochWrites = 0 then c else drbdSendBarrier c
    { c with send := { c.send with currentEpochNr := epoch } }

/-- `w_send_dblock`, `w_send_out_of_sync` or `w_send_read_req`. -/
def wSend (c : Connection) (r : TlReq) : Connection :=
  match r.kind with
  | .data =>
      let c := maybeSendBarrier (reInitIfFirstWrite c r.epoch) r.epoch
      { c with send := { c.send with currentEpochWrites := c.send.currentEpochWrites + 1 } }.put (.data r.epoch)
  | _ => maybeSendBarrier c r.epoch

/-- What the request is after it was handed over. -/
def TlReq.handedOver (r : TlReq) : TlReq :=
  { r with status := if r.kind = .outOfSync then .done else .sent }

def TlReq.isQueued (r : TlReq) : Bool :=
  r.netMask && r.status = .queued

/-- The worker takes the oldest request on its queue: requests are queued in the order of the transfer log. -/
def workerStep (c : Connection) : Option Connection :=
  match c.transferLog.find? TlReq.isQueued with
  | none => none
  | some r =>
      let log := c.transferLog.takeWhile (!·.isQueued) ++ r.handedOver
        :: (c.transferLog.dropWhile (!·.isQueued)).tail
      some (wSend { c with transferLog := log } r)

/-- `wait_for_work` with nothing to do: the epoch that is over is closed. -/
def workerIdle (c : Connection) : Option Connection :=
  if c.transferLog.any TlReq.isQueued then none
  else if c.currentTleNr = c.send.currentEpochNr then some c
  else some (maybeSendBarrier c (c.send.currentEpochNr + 1))

/-! ## Barrier acks -/

/-- The count at the top of `tl_release`: the epoch and size it expects. -/
def tlExpect : List TlReq → Option (Nat × Nat)
  | [] => none
  | r :: rest =>
      if r.write && r.netMask && !r.netDone then
        some (r.epoch, 1 + ((rest.takeWhile (·.epoch = r.epoch)).filter (·.write)).length)
      else tlExpect rest

/-- `BARRIER_ACKED`. -/
def TlReq.barrierAcked (r : TlReq) : TlReq :=
  if r.write && r.netMask then { r with status := .done } else r

/-- `tl_release`; a mismatch is `C_PROTOCOL_ERROR`. -/
def tlRelease (c : Connection) (barrierNr setSize : Nat) : Connection :=
  match tlExpect c.transferLog with
  | none => { c with protocolError := true }
  | some (expectEpoch, expectSize) =>
      if expectEpoch ≠ barrierNr ∨ expectSize ≠ setSize then { c with protocolError := true }
      else
        let front := c.transferLog.takeWhile (·.epoch ≠ expectEpoch)
        let back := c.transferLog.dropWhile (·.epoch ≠ expectEpoch)
        let acked := (back.takeWhile (·.epoch = expectEpoch)).map TlReq.barrierAcked
        { c with transferLog := front ++ acked ++ back.dropWhile (·.epoch = expectEpoch) }

/-! ## The peer -/

/-- `receive_Data` and `receive_Barrier`, as far as they count; an epoch without a write is not acked. -/
def peerStep (c : Connection) : Option Connection :=
  match c.channel with
  | [] => none
  | .data _ :: rest => some { c with channel := rest, epochSize := c.epochSize + 1 }
  | .barrier nr :: rest =>
      some { c with
        channel := rest
        epochSize := 0
        acks := if c.epochSize = 0 then c.acks else c.acks ++ [(nr, c.epochSize)] }

/-! ## The system -/

inductive Event
  | write (remote sendOos noblock marked : Bool)
  | read (remote : Bool)
  | flush (remote : Bool)
  | closeEpoch
  | worker
  | idle
  | destroy (i : Nat)
  | peer
  | barrierAck
deriving DecidableEq, Repr

/-- A request with nothing left to wait for leaves the transfer log; data waits for its barrier ack. -/
def TlReq.mayLeave (r : TlReq) : Bool :=
  !r.isQueued && !(r.kind = .data && r.status ≠ .done)

/-- One step; after a protocol error there is no connection any more. -/
def step (maxEpochSize : Nat) (c : Connection) (e : Event) : Option Connection :=
  if c.protocolError then none
  else
    match e with
    | .write remote sendOos noblock marked =>
        some (submitWrite maxEpochSize c (drbdProcessWriteRequest remote sendOos noblock marked))
    | .read remote => some (submitRead c remote)
    | .flush remote => some (if remote then startNewTlEpoch c else c)
    | .closeEpoch => some (startNewTlEpoch c)
    | .worker => workerStep c
    | .idle => workerIdle c
    | .destroy i =>
        match c.transferLog[i]? with
        | none => none
        | some r => if r.mayLeave then some { c with transferLog := c.transferLog.eraseIdx i } else none
    | .peer => peerStep c
    | .barrierAck =>
        match c.acks with
        | [] => none
        | (nr, size) :: rest => some (tlRelease { c with acks := rest } nr size)

/-- A fresh connection; epoch numbers go on from where they are. -/
def connected (currentTleNr : Nat) : Connection where
  currentTleNr := currentTleNr
  currentTleWrites := 0
  transferLog := []
  send := ⟨false, 0, 0⟩
  channel := []
  epochSize := 0
  acks := []
  protocolError := false
  wire := []

end Drbd.Epoch
