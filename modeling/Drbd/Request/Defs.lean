import Drbd.State.Defs
import Drbd.Lib.System

/-!
# Requests and their reference counts

A request of the upper layers lives in two counts: `completion_ref`, which completes the master bio when
it drops to zero, and `kref`, which frees the request. Every event goes through `__req_mod`, which turns
changes of the state bits into references taken and put.
-/

namespace Drbd.Request

open State

/-- `enum drbd_req_state_bits`. Also used as a mask of bits to clear or to set. -/
structure RqState where
  localPending : Bool
  localCompleted : Bool
  localOk : Bool
  localAborted : Bool
  netPending : Bool
  netQueued : Bool
  netSent : Bool
  netDone : Bool
  netOk : Bool
  netSis : Bool
  write : Bool
  inActLog : Bool
  postponed : Bool
  completionSusp : Bool
  expReceiveAck : Bool
  expWriteAck : Bool
  expBarrAck : Bool
deriving DecidableEq, Repr

/-- No bit. -/
def noBits : RqState :=
  ⟨false, false, false, false, false, false, false, false, false, false, false, false, false, false, false,
    false, false⟩

namespace RqState

/-- `s & RQ_LOCAL_MASK`. -/
def localMask (s : RqState) : Bool :=
  s.localPending || s.localCompleted || s.localOk || s.localAborted

/-- `s & RQ_NET_MASK`. -/
def netMask (s : RqState) : Bool :=
  s.netPending || s.netQueued || s.netSent || s.netDone || s.netOk || s.netSis

/-- `(s & ~clear) | set`. -/
def apply (s clear set : RqState) : RqState where
  localPending := s.localPending && !clear.localPending || set.localPending
  localCompleted := s.localCompleted && !clear.localCompleted || set.localCompleted
  localOk := s.localOk && !clear.localOk || set.localOk
  localAborted := s.localAborted && !clear.localAborted || set.localAborted
  netPending := s.netPending && !clear.netPending || set.netPending
  netQueued := s.netQueued && !clear.netQueued || set.netQueued
  netSent := s.netSent && !clear.netSent || set.netSent
  netDone := s.netDone && !clear.netDone || set.netDone
  netOk := s.netOk && !clear.netOk || set.netOk
  netSis := s.netSis && !clear.netSis || set.netSis
  write := s.write && !clear.write || set.write
  inActLog := s.inActLog && !clear.inActLog || set.inActLog
  postponed := s.postponed && !clear.postponed || set.postponed
  completionSusp := s.completionSusp && !clear.completionSusp || set.completionSusp
  expReceiveAck := s.expReceiveAck && !clear.expReceiveAck || set.expReceiveAck
  expWriteAck := s.expWriteAck && !clear.expWriteAck || set.expWriteAck
  expBarrAck := s.expBarrAck && !clear.expBarrAck || set.expBarrAck

end RqState

/-- `bio_rw` of the master bio. -/
inductive Rw
  | read
  | readAhead
  | write
deriving DecidableEq, Repr

/-- `wire_protocol` of the net configuration; S is the one that does not block on the peer. -/
inductive WireProtocol
  | a
  | b
  | c
  | s
deriving DecidableEq, Repr

/-- The work callback of a request. -/
inductive Callback
  | wSendReadReq
  | wSendDblock
  | wSendOutOfSync
  | wRestartDiskIo
deriving DecidableEq, Repr

/-- What a request does to the rest of the device, in order. -/
inductive Effect
  | completeMasterBio (ok : Bool)
  | restartRequest
  | setOutOfSync
  | setInSync
  | alCompleteIo
  | alLost
  | free
  | bugPending
  | bugNoMasterBio
  | bugDestroy
  | bugRefcount
deriving DecidableEq, Repr

/-- The "Logic BUG" messages. -/
def Effect.isBug : Effect → Bool
  | bugPending | bugNoMasterBio | bugDestroy | bugRefcount => true
  | _ => false

/-- `struct drbd_request`. The fields `submitter`, `retry`, `freed` and `log` are not in the source: the
reference of the submitter is still held, the request is on the retry list, it is freed, and what it did. -/
structure DrbdRequest where
  rqState : RqState
  rw : Rw
  completionRef : Int
  kref : Int
  masterBio : Bool
  inList : Bool
  interval : Bool
  cb : Option Callback
  submitter : Bool
  retry : Bool
  freed : Bool
  log : List Effect
deriving DecidableEq, Repr

/-- What an event finds outside of the request. -/
structure Env where
  suspended : Bool
  wireProtocol : WireProtocol
  disk : Disk
deriving DecidableEq, Repr

/-- `drbd_req_new`. -/
def drbdReqNew (rw : Rw) : DrbdRequest where
  rqState := { noBits with write := rw = .write }
  rw := rw
  completionRef := 1
  kref := 1
  masterBio := true
  inList := false
  interval := false
  cb := none
  submitter := true
  retry := false
  freed := false
  log := []

def DrbdRequest.effect (r : DrbdRequest) (e : Effect) : DrbdRequest :=
  { r with log := r.log ++ [e] }

/-! ## Completion and destruction -/

/-- What `drbd_req_destroy` does for a write: mark its blocks unless both sides have it, then give up its
part of the activity log. A request pushed back before it was submitted or sent marks nothing. -/
def destroyEffects (env : Env) (s : RqState) : List Effect :=
  let marks :=
    if s.postponed && !s.localMask && !s.netMask then []
    else
      (if !s.netOk || !s.localOk then [.setOutOfSync] else [])
        ++ (if s.netOk && s.localOk && s.netSis then [.setInSync] else [])
  let actLog := if s.inActLog then (if .failed ≤ env.disk then [.alCompleteIo] else [.alLost]) else []
  (if s.write then marks ++ actLog else []) ++ [.free]

/-- The check at the top of `drbd_req_destroy`. -/
def destroyBug (r : DrbdRequest) : Bool :=
  let s := r.rqState
  (r.masterBio && !s.postponed) || r.completionRef ≠ 0 || s.localPending || (s.netMask && !s.netDone)

/-- `drbd_req_destroy`. -/
def drbdReqDestroy (env : Env) (r : DrbdRequest) : DrbdRequest :=
  if destroyBug r then r.effect .bugDestroy
  else { r with inList := false, freed := true, log := r.log ++ destroyEffects env r.rqState }

/-- `drbd_req_complete`. -/
def drbdReqComplete (r : DrbdRequest) : DrbdRequest :=
  let s := r.rqState
  if (s.localPending && !s.localAborted) || s.netQueued || s.netPending || s.completionSusp then
    r.effect .bugPending
  else if !r.masterBio then r.effect .bugNoMasterBio
  else
    let ok := s.localOk || s.netOk
    let r := { r with interval := false }
    let r := if !ok && r.rw = .read && r.inList then { r with rqState := { s with postponed := true } } else r
    if r.rqState.postponed then r
    else { r.effect (.completeMasterBio ok) with masterBio := false }

/-- `drbd_req_put_completion_ref`; the second part says whether the caller is to put a `kref`. A request
to be restarted goes to the retry list instead. -/
def drbdReqPutCompletionRef (r : DrbdRequest) (put : Int) : DrbdRequest × Bool :=
  let r := { r with completionRef := r.completionRef - put }
  if r.completionRef ≠ 0 then (r, false)
  else
    let r := drbdReqComplete r
    if r.rqState.postponed then ({ r.effect .restartRequest with retry := true, inList := true }, false)
    else (r, true)

/-- `kref_sub` with `drbd_req_destroy`. -/
def krefSub (env : Env) (r : DrbdRequest) (put : Int) : DrbdRequest :=
  let r := { r with kref := r.kref - put }
  if r.kref = 0 then drbdReqDestroy env r else r

/-- The end of `mod_rq_state`: completion puts its own reference to the request. -/
def putRefs (env : Env) (r : DrbdRequest) (cPut kPut : Nat) : DrbdRequest :=
  if cPut = 0 then (if kPut = 0 then r else krefSub env r kPut)
  else
    let (r, more) := drbdReqPutCompletionRef r cPut
    let kPut := kPut + more.toNat
    if kPut = 0 then r else krefSub env r kPut

/-! ## The state bits -/

/-- The set mask that `mod_rq_state` applies: completion is suspended along with the device. -/
def effectiveSet (env : Env) (s clear set : RqState) : RqState :=
  if env.suspended && !(s.completionSusp || clear.completionSusp) then { set with completionSusp := true }
  else set

/-- The completion references taken. -/
def completionGet (s set : RqState) : Nat :=
  (!s.localPending && set.localPending).toNat + (!s.netPending && set.netPending).toNat
    + (!s.netQueued && set.netQueued).toNat + (!s.completionSusp && set.completionSusp).toNat

/-- The completion references put. -/
def completionPut (s clear set new : RqState) : Nat :=
  (s.completionSusp && clear.completionSusp).toNat + (!s.localAborted && set.localAborted).toNat
    + (s.localPending && clear.localPending && !new.localAborted).toNat
    + (s.netPending && clear.netPending).toNat + (s.netQueued && clear.netQueued).toNat

/-- The references to the request itself that are taken: for the barrier ack, and for an aborted bio. -/
def krefGet (s set : RqState) : Nat :=
  (!s.expBarrAck && set.expBarrAck).toNat + (!s.localAborted && set.localAborted).toNat

def krefPut (s clear set new : RqState) : Nat :=
  (s.localPending && clear.localPending && new.localAborted).toNat
    + (s.expBarrAck && !s.netDone && set.netDone).toNat

/-- `mod_rq_state`. -/
def modRqState (env : Env) (r : DrbdRequest) (clear set : RqState) : DrbdRequest :=
  let s := r.rqState
  let set := effectiveSet env s clear set
  let new := s.apply clear set
  if new = s then r
  else
    let r := { r with
      rqState := new
      completionRef := r.completionRef + completionGet s set
      kref := r.kref + krefGet s set }
    let cPut := completionPut s clear set new
    let kPut := krefPut s clear set new
    let atLeast := kPut + (if cPut = 0 then 0 else 1)
    let r := if (kPut ≠ 0 ∨ cPut ≠ 0) ∧ r.kref < (atLeast : Int) then r.effect .bugRefcount else r
    putRefs env r cPut kPut

/-! ## Events -/

/-- `enum drbd_req_event`. -/
inductive Event
  | toBeSent
  | toBeSubmitted
  | queueForNetWrite
  | queueForNetRead
  | queueForSendOos
  | queueAsDrbdBarrier
  | sendCanceled
  | sendFailed
  | handedOverToNetwork
  | oosHandedToNetwork
  | connectionLostWhilePending
  | readRetryRemoteCanceled
  | recvAckedByPeer
  | writeAckedByPeer
  | writeAckedByPeerAndSis
  | conflictResolved
  | postponeWrite
  | negAcked
  | barrierAcked
  | dataReceived
  | completedOk
  | readCompletedWithError
  | readAheadCompletedWithError
  | writeCompletedWithError
  | discardCompletedNotsupp
  | discardCompletedWithError
  | abortDiskIo
  | resend
  | failFrozenDiskIo
  | restartFrozenDiskIo
deriving DecidableEq, Repr

/-- What the event sets without going through `mod_rq_state`. -/
def directBits (env : Env) (s : RqState) : Event → RqState
  | .toBeSent =>
      { s with
        expWriteAck := s.expWriteAck || env.wireProtocol = .c
        expReceiveAck := s.expReceiveAck || env.wireProtocol = .b }
  | .writeAckedByPeerAndSis => { s with netSis := true }
  | .postponeWrite => { s with postponed := true }
  | _ => s

/-- The masks with which an event ends in `mod_rq_state`, if it does. -/
def masks (r : DrbdRequest) : Event → Option (RqState × RqState)
  | .toBeSent => some (noBits, { noBits with netPending := true })
  | .toBeSubmitted => some (noBits, { noBits with localPending := true })
  | .completedOk =>
      some ({ noBits with localPending := true }, { noBits with localCompleted := true, localOk := true })
  | .abortDiskIo => some (noBits, { noBits with localAborted := true })
  | .writeCompletedWithError | .readCompletedWithError | .readAheadCompletedWithError
  | .discardCompletedNotsupp | .discardCompletedWithError =>
      some ({ noBits with localPending := true }, { noBits with localCompleted := true })
  | .queueForNetRead => some (noBits, { noBits with netQueued := true })
  | .queueForNetWrite => some (noBits, { noBits with netQueued := true, expBarrAck := true })
  | .queueForSendOos => some (noBits, { noBits with netQueued := true })
  | .readRetryRemoteCanceled | .sendCanceled | .sendFailed => some ({ noBits with netQueued := true }, noBits)
  | .handedOverToNetwork => some ({ noBits with netQueued := true }, { noBits with netSent := true })
  | .oosHandedToNetwork => some ({ noBits with netQueued := true }, { noBits with netDone := true })
  | .connectionLostWhilePending =>
      some ({ noBits with netOk := true, netPending := true, completionSusp := true },
        { noBits with netDone := true })
  | .conflictResolved => some ({ noBits with netPending := true }, { noBits with netDone := true, netOk := true })
  | .writeAckedByPeerAndSis | .writeAckedByPeer | .recvAckedByPeer =>
      some ({ noBits with netPending := true }, { noBits with netOk := true })
  | .postponeWrite => none
  | .negAcked => some ({ noBits with netOk := true, netPending := true }, noBits)
  | .failFrozenDiskIo =>
      if r.rqState.localCompleted then some ({ noBits with completionSusp := true }, noBits) else none
  | .restartFrozenDiskIo =>
      if r.rqState.localCompleted then
        some ({ noBits with completionSusp := true, localCompleted := true }, { noBits with localPending := true })
      else none
  | .resend =>
      if !r.rqState.write && r.cb = none then some ({ noBits with completionSusp := true }, noBits)
      else if !r.rqState.netOk then
        some ({ noBits with completionSusp := true }, { noBits with netQueued := true, netPending := true })
      else barrierMasks r
  | .barrierAcked => barrierMasks r
  | .dataReceived => some ({ noBits with netPending := true }, { noBits with netOk := true, netDone := true })
  | .queueAsDrbdBarrier => some (noBits, { noBits with netOk := true, netDone := true })
where
  /-- A barrier ack makes no sense for a read; a request that was never on the wire is not done. -/
  barrierMasks (r : DrbdRequest) : Option (RqState × RqState) :=
    if !r.rqState.write then none
    else some ({ noBits with completionSusp := true }, { noBits with netDone := r.rqState.netMask })

/-- Under protocol A, a write handed over to the network counts as written by the peer. -/
def pretendsAck (r : DrbdRequest) : Bool :=
  r.rw = .write && !(r.rqState.expReceiveAck || r.rqState.expWriteAck) && r.rqState.netPending

/-- What the event leaves with the request besides the bits. -/
def bookkeeping (r : DrbdRequest) : Event → DrbdRequest
  | .queueForNetRead => { r with interval := true, cb := some .wSendReadReq }
  | .queueForNetWrite => { r with interval := true, cb := some .wSendDblock }
  | .queueForSendOos => { r with cb := some .wSendOutOfSync }
  | .restartFrozenDiskIo => if r.rqState.localCompleted then { r with cb := some .wRestartDiskIo } else r
  | .readCompletedWithError => r.effect .setOutOfSync
  | _ => r

/-- The change an event ends with. -/
def lastChange (env : Env) (r : DrbdRequest) (what : Event) : DrbdRequest :=
  let q := { bookkeeping r what with rqState := directBits env r.rqState what }
  match masks r what with
  | none => q
  | some (clear, set) => modRqState env q clear set

/-- `__req_mod`. It gives nothing where it would follow a freed request or a missing master bio. -/
def reqMod (env : Env) (r : DrbdRequest) (what : Event) : Option DrbdRequest :=
  if r.freed then none
  else if (what = .handedOverToNetwork ∨ (what = .restartFrozenDiskIo ∧ r.rqState.localCompleted)) ∧ !r.masterBio
  then none
  else
    let r :=
      if what = .handedOverToNetwork ∧ pretendsAck r then
        modRqState env r { noBits with netPending := true } { noBits with netOk := true }
      else r
    if r.freed then none else some (lastChange env r what)

/-- The `D_ASSERT`s of an event. -/
def Asserts (r : DrbdRequest) : Event → Prop
  | .toBeSent => r.rqState.netMask = false
  | .toBeSubmitted => r.rqState.localMask = false
  | .queueForNetRead => r.interval = false ∧ r.rqState.netPending = true ∧ r.rqState.localMask = false
  | .queueForNetWrite => r.interval = false ∧ r.rqState.netPending = true
  | .conflictResolved | .postponeWrite => r.rqState.netPending = true ∧ r.rqState.expWriteAck = true
  | .writeAckedByPeer | .writeAckedByPeerAndSis => r.rqState.expWriteAck = true ∧ r.rqState.netPending = true
  | .recvAckedByPeer => r.rqState.expReceiveAck = true ∧ r.rqState.netPending = true
  | .dataReceived => r.rqState.netPending = true
  | .abortDiskIo => r.rqState.localAborted = true ∨ r.rqState.localPending = true
  | _ => True

/-! ## The request as a system -/

/-- What happens to a request: an event, one of the steps of its submitter, or the retry worker. -/
inductive Act
  | event (what : Event)
  | inActLog
  | addToTransferLog
  | pushBack
  | putSubmitter
  | doRetry
deriving DecidableEq, Repr

/-- One step, with what it finds outside. A freed request takes no step. -/
def step (r : DrbdRequest) : Env × Act → Option DrbdRequest
  | (env, .event what) => reqMod env r what
  | (_, .inActLog) =>
      if r.submitter ∧ !r.freed then some { r with rqState := { r.rqState with inActLog := true } } else none
  | (_, .addToTransferLog) => if r.submitter ∧ !r.freed then some { r with inList := true } else none
  | (_, .pushBack) =>
      if r.submitter ∧ !r.freed then some { r with rqState := { r.rqState with postponed := true } } else none
  | (env, .putSubmitter) =>
      if r.submitter ∧ !r.freed then
        let (r, last) := drbdReqPutCompletionRef { r with submitter := false } 1
        some (if last then krefSub env r 1 else r)
      else none
  | (env, .doRetry) =>
      if r.retry ∧ !r.freed then some (krefSub env { r with retry := false } 1) else none

end Drbd.Request
